import Mathlib.Data.List.Sort
import Veronex.Dispatch.HealthChecker

/-! # The registry of providers

`PostgresProviderRegistry` (`persistence/provider_registry.rs`) with `domain/services/encryption.rs`,
and the handlers of `provider_handlers.rs` that read and write through it. Each statement is a step;
one that fails changes nothing. The key of a provider is encrypted in its row, or still the plain text
that an earlier version stored: a read finds out which, and stores such a text again, encrypted, by a
statement of its own.

`ProviderKeys` has what the rows and the answers hold, whatever the order of the statements.
-/
namespace Veronex.ProviderRegistry
set_option autoImplicit false
open Concurrency

/-! ## Encryption -/

def Nonce : Type := { bytes : List UInt8 // bytes.length = 12 }

/-- Base64 and AES-256-GCM, the latter from and to UTF-8. -/
structure Crypto where
  Key : Type
  encode : List UInt8 → String
  decode : String → Option (List UInt8)
  decode_encode : ∀ bytes, decode (encode bytes) = some bytes
  sealText : Key → List UInt8 → String → List UInt8
  openText : Key → List UInt8 → List UInt8 → Option String
  openText_sealText : ∀ key nonce text, openText key nonce (sealText key nonce text) = some text

def MIN_CIPHERTEXT_BYTES : ℕ := 28

namespace Crypto
variable (c : Crypto) (masterKey : c.Key)

def encrypt (nonce : Nonce) (plaintext : String) : String :=
  c.encode (nonce.1 ++ c.sealText masterKey nonce.1 plaintext)

def decrypt (encoded : String) : Option String := do
  let combined ← c.decode encoded
  if combined.length < 12 then none
  else c.openText masterKey (combined.take 12) (combined.drop 12)

def looksLikeCiphertext (encoded : String) : Bool :=
  (c.decode encoded).any fun bytes => decide (MIN_CIPHERTEXT_BYTES ≤ bytes.length)

/-- The second component is `needs_re_encrypt`. -/
def decryptOrLegacy (encoded : String) : String × Bool :=
  match c.decrypt masterKey encoded with
  | some plaintext => (plaintext, false)
  | none => (encoded, !c.looksLikeCiphertext encoded)

def plain (encoded : String) : String := (c.decryptOrLegacy masterKey encoded).1

theorem decrypt_encrypt (nonce : Nonce) (plaintext : String) :
    c.decrypt masterKey (c.encrypt masterKey nonce plaintext) = some plaintext := by
  have htake : (nonce.1 ++ c.sealText masterKey nonce.1 plaintext).take 12 = nonce.1 :=
    List.take_left' nonce.2
  have hdrop : (nonce.1 ++ c.sealText masterKey nonce.1 plaintext).drop 12 =
      c.sealText masterKey nonce.1 plaintext := List.drop_left' nonce.2
  have hlong : ¬ (nonce.1 ++ c.sealText masterKey nonce.1 plaintext).length < 12 := by
    rw [List.length_append, nonce.2]
    omega
  rw [decrypt, encrypt, c.decode_encode, Option.bind_eq_bind, Option.bind_some, if_neg hlong, htake,
    hdrop, c.openText_sealText]

theorem plain_encrypt (nonce : Nonce) (plaintext : String) :
    c.plain masterKey (c.encrypt masterKey nonce plaintext) = plaintext := by
  rw [plain, decryptOrLegacy, c.decrypt_encrypt]

end Crypto

/-! ## Rows and requests -/

/-- `api_key_encrypted` is the text of the column in a row, and the plain key outside of the registry. -/
structure LlmProvider where
  id : Uuid
  name : String
  providerType : ProviderType
  url : String
  apiKeyEncrypted : Option String
  totalVramMb : ℤ
  gpuIndex : Option ℤ
  serverId : Option Uuid
  isFreeTier : Bool
  numParallel : ℤ
  status : LlmProviderStatus
  registeredAt : Millis

structure UpdateProviderRequest where
  name : String
  url : Option String
  apiKey : Option String
  totalVramMb : Option ℤ
  gpuIndex : Option ℤ
  serverId : Option Uuid
  isFreeTier : Option Bool
  numParallel : Option ℤ

/-- An empty key is no key. -/
def UpdateProviderRequest.newKey (req : UpdateProviderRequest) : Option String :=
  req.apiKey.filter fun key => !key.isEmpty

/-- The WHERE clauses of the SELECTs. -/
inductive Query
  | listAll
  | listActive
  | get (id : Uuid)
  /-- `matching` is the search and the type of a page. -/
  | listPage (matching : LlmProvider → Bool) (limit offset : ℕ)

def LIST_LIMIT : ℕ := 10000

def byRegistration (rows : List LlmProvider) : List LlmProvider :=
  rows.insertionSort fun p q => p.registeredAt ≤ q.registeredAt

def Query.select (table : List LlmProvider) : Query → List LlmProvider
  | .listAll => (byRegistration table).take LIST_LIMIT
  | .listActive => (byRegistration (table.filter fun p => p.status = .online)).take LIST_LIMIT
  | .get id => (table.filter fun p => p.id = id).take 1
  | .listPage matching limit offset =>
    ((byRegistration (table.filter matching)).drop offset).take limit

/-- What a handler does with the providers it has read. -/
inductive Next
  | reply
  | update (req : UpdateProviderRequest)
  | delete

/-- An operation of the registry and of its handler, at its next statement. -/
inductive Task (Key : Type)
  /-- The rows read as plain text that are still to be encrypted. -/
  | reEncrypt (masterKey : Key) (legacy : List (Uuid × String)) (providers : List LlmProvider)
      (next : Next)
  /-- `newKey` is the key of the request. -/
  | update (masterKey : Key) (provider : LlmProvider) (newKey : Option String)
  | delete (id : Uuid)
  | done

structure World (Key : Type) where
  table : List LlmProvider
  nextId : Uuid
  tasks : List (Task Key)
  /-- The providers and the keys that were handed out. -/
  given : List (Uuid × String)
  /-- The keys that were set, by provider. -/
  sets : List (Uuid × String)
  /-- The statuses that were set, by provider. -/
  statuses : List (Uuid × LlmProviderStatus)

inductive Act (Key : Type)
  | register (masterKey : Key) (provider : LlmProvider) (nonce : Nonce)
  | query (masterKey : Key) (q : Query)
  /-- A handler of one provider. -/
  | request (masterKey : Key) (id : Uuid) (next : Next)
  /-- The next statement of an operation; when it fails, so does the operation, but not a read. -/
  | statement (k : ℕ) (nonce : Nonce) (ok : Bool)
  | updateStatus (id : Uuid) (status : LlmProviderStatus)

/-- An UPDATE of the row with this id. -/
def modify (id : Uuid) (f : LlmProvider → LlmProvider) (table : List LlmProvider) :
    List LlmProvider :=
  table.map fun row => if row.id = id then f row else row

/-- What was set last for a provider. -/
def lastOf {V : Type} (id : Uuid) (sets : List (Uuid × V)) : Option V :=
  (sets.reverse.find? fun s => decide (s.1 = id)).map Prod.snd

/-- What setting a key adds, when there is one. -/
def setting (id : Uuid) (key : Option String) : List (Uuid × String) :=
  (key.map fun key => (id, key)).toList

section Operations
variable (c : Crypto) (acceptsUrl : String → Bool)

def rowToProvider (masterKey : c.Key) (row : LlmProvider) : LlmProvider :=
  { row with apiKeyEncrypted := row.apiKeyEncrypted.map (c.plain masterKey) }

/-- The key to be encrypted of a row that is still plain. -/
def legacyKey (masterKey : c.Key) (row : LlmProvider) : Option (Uuid × String) :=
  (row.apiKeyEncrypted.filter fun raw => (c.decryptOrLegacy masterKey raw).2).map fun raw =>
    (row.id, raw)

/-- The provider of a PATCH, unless its name or its URL is refused. -/
def patched (req : UpdateProviderRequest) (p : LlmProvider) : Option LlmProvider :=
  if (trim req.name.toList).isEmpty then none
  else if req.url.any fun url => !url.isEmpty && !acceptsUrl url then none
  else some { p with
    name := String.ofList (trim req.name.toList)
    url := req.url.getD p.url
    apiKeyEncrypted := req.newKey <|> p.apiKeyEncrypted
    totalVramMb := req.totalVramMb.getD p.totalVramMb
    gpuIndex := req.gpuIndex
    serverId := req.serverId
    isFreeTier := req.isFreeTier.getD p.isFreeTier
    numParallel := req.numParallel.getD p.numParallel }

/-- The columns an UPDATE of a provider writes; a missing key leaves the stored one. -/
def written (masterKey : c.Key) (nonce : Nonce) (p row : LlmProvider) : LlmProvider :=
  { row with
    name := p.name
    url := p.url
    apiKeyEncrypted := (p.apiKeyEncrypted.map (c.encrypt masterKey nonce)) <|> row.apiKeyEncrypted
    totalVramMb := p.totalVramMb
    gpuIndex := p.gpuIndex
    serverId := p.serverId
    isFreeTier := p.isFreeTier
    numParallel := p.numParallel }

/-- What follows a read. -/
def afterRead (masterKey : c.Key) (providers : List LlmProvider) : Next → Task c.Key
  | .reply => .done
  | .update req =>
    match providers.head?.bind (patched acceptsUrl req) with
    | some p => .update masterKey p req.newKey
    | none => .done
  | .delete =>
    match providers.head? with
    | some p => .delete p.id
    | none => .done

/-- What a read hands out. -/
def handedOut (providers : List LlmProvider) : Next → List (Uuid × String)
  | .reply => providers.filterMap fun p => p.apiKeyEncrypted.map fun key => (p.id, key)
  | _ => []

namespace World
variable (w : World c.Key)

/-- A SELECT. -/
def read (masterKey : c.Key) (q : Query) (next : Next) : World c.Key :=
  let rows := q.select w.table
  { w with
    tasks := w.tasks ++ [.reEncrypt masterKey (rows.filterMap (legacyKey c masterKey))
      (rows.map (rowToProvider c masterKey)) next] }

def runStatement (k : ℕ) (nonce : Nonce) (ok : Bool) : Task c.Key → Option (World c.Key)
  | .reEncrypt masterKey ((id, plaintext) :: legacy) providers next =>
    let table := modify id (fun row =>
      { row with apiKeyEncrypted := some (c.encrypt masterKey nonce plaintext) }) w.table
    some { w with
      table := if ok then table else w.table
      tasks := advance w.tasks k (.reEncrypt masterKey legacy providers next) [] }
  | .reEncrypt masterKey [] providers next =>
    some { w with
      tasks := advance w.tasks k (afterRead c acceptsUrl masterKey providers next) []
      given := w.given ++ handedOut providers next }
  | .update masterKey p newKey =>
    if ok then
      some { w with
        table := modify p.id (written c masterKey nonce p) w.table
        tasks := advance w.tasks k .done []
        sets := w.sets ++ setting p.id newKey }
    else some { w with tasks := advance w.tasks k .done [] }
  | .delete id =>
    some { w with
      table := if ok then w.table.filter fun row => row.id ≠ id else w.table
      tasks := advance w.tasks k .done [] }
  | .done => none

def step : Act c.Key → Option (World c.Key)
  | .register masterKey p nonce =>
    some { w with
      table := w.table ++ [{ p with
        id := w.nextId
        apiKeyEncrypted := p.apiKeyEncrypted.map (c.encrypt masterKey nonce) }]
      nextId := w.nextId + 1
      sets := w.sets ++ setting w.nextId p.apiKeyEncrypted
      statuses := w.statuses ++ [(w.nextId, p.status)] }
  | .query masterKey q => some (w.read c masterKey q .reply)
  | .request masterKey id next => some (w.read c masterKey (.get id) next)
  | .statement k nonce ok => (w.tasks[k]?).bind (w.runStatement c acceptsUrl k nonce ok)
  | .updateStatus id status =>
    some { w with
      table := modify id (fun row => { row with status := status }) w.table
      statuses := w.statuses ++ [(id, status)] }

/-- The rows as they are found. -/
def init (masterKey : c.Key) (table : List LlmProvider) : World c.Key where
  table := table
  nextId := (table.map fun row => row.id + 1).foldr max 0
  tasks := []
  given := []
  sets := table.filterMap fun row => row.apiKeyEncrypted.map fun raw => (row.id, c.plain masterKey raw)
  statuses := table.map fun row => (row.id, row.status)

end World
end Operations
end Veronex.ProviderRegistry
