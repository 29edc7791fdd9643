import Mathlib.Data.List.AList
import Veronex.Foundation.Pool
import Veronex.Foundation.Transition
import Veronex.Mcp.Bridge

/-! # The tool cache

`McpToolCache` of `veronex-mcp/src/tool_cache.rs` and the part of `execute_one` (`bridge.rs`) that
turns a function name into a server and a tool. Every access to one of the maps is a step of its own,
and so is every command to Valkey or to a server; what these answer is chosen by the step.
-/
namespace Veronex.Mcp
set_option autoImplicit false
open Concurrency

/-! ## Tools -/

structure McpTool where
  name : String
  description : String
  inputSchema : Json
  readOnlyHint : Bool
  idempotentHint : Bool
  serverId : Uuid
  serverName : String

namespace McpTool

def namespacedName (t : McpTool) : String := "mcp_" ++ t.serverName ++ "_" ++ t.name

def toOpenaiFunction (t : McpTool) : Json :=
  .obj [("type", .str "function"),
    ("function", .obj [("name", .str t.namespacedName), ("description", .str t.description),
      ("parameters", t.inputSchema)])]

def canCache (t : McpTool) : Bool := t.readOnlyHint && t.idempotentHint

/-- The fields that are skipped on the wire, filled in. -/
def fill (id : Uuid) (slug : String) (t : McpTool) : McpTool :=
  { t with serverId := id, serverName := slug }

end McpTool

/-- `[a-z][a-z0-9_]*` -/
def validateSlug (slug : String) : Bool :=
  slug.toList.head?.any Char.isLower &&
    slug.toList.all fun c => c.isLower || c.isDigit || c = '_'

/-- The servers with a session. -/
structure McpServers where
  slugs : List (Uuid × String)
  slug_valid : ∀ s ∈ slugs, validateSlug s.2
  ids_nodup : (slugs.map Prod.fst).Nodup
  slugs_nodup : (slugs.map Prod.snd).Nodup
  maxTools : ℕ

/-! ## State -/

structure CachedTools where
  tools : List McpTool
  fetchedAt : Millis

def L1_TTL_MS : Millis := 30000

/-- A call of `get_all` that goes through its snapshot. -/
structure GetAll where
  allowed : Option (List Uuid)
  online : List Uuid
  rest : List (Uuid × CachedTools)
  tools : List McpTool

inductive Op
  /-- `refresh` -/
  | lock (id : Uuid)
  | fetch (id : Uuid)
  /-- The end of `refresh` and of `cache_fetched_tools`. -/
  | slug (id : Uuid) (tools : List McpTool)
  /-- The reverse map has the names of `entered`; with none left the list is stored. -/
  | names (id : Uuid) (entered rest : List McpTool) (frame : Option GetAll)
  /-- `load_from_valkey` -/
  | get (id : Uuid) (frame : Option GetAll)
  /-- `invalidate`, and `remove_server` where the slug goes too. -/
  | drop (id : Uuid) (forget : Bool)
  | retract (id : Uuid) (rest : List McpTool) (forget : Bool)
  /-- `get_all` -/
  | snapshot (allowed : Option (List Uuid))
  | liveness (allowed : Option (List Uuid)) (entries : List (Uuid × CachedTools))
  | visit (g : GetAll)
  | returned (allowed : Option (List Uuid)) (tools : List McpTool)
  /-- `execute_one`, of a name and the tool it was offered for. -/
  | resolve (allowed : Option (List Uuid)) (name : String) (offer : Option McpTool)
  | define (allowed : Option (List Uuid)) (id : Uuid) (name : String) (offer : Option McpTool)
  | executed (allowed : Option (List Uuid)) (id : Uuid) (rawName : String) (offer : Option McpTool)
  /-- `cached`: whether the list of the offering server has the name. -/
  | unknown (offer : Option McpTool) (cached : Bool)
  | refused
  | finished

structure ToolCache where
  now : Millis
  l1 : AList fun _ : Uuid => CachedTools
  nameToServer : String → Option Uuid
  serverSlugs : Uuid → Option String
  ops : List Op

inductive Effect
  | skip
  | insertSlug (id : Uuid) (slug : String)
  | insertName (name : String) (id : Uuid)
  | insertTools (id : Uuid) (tools : List McpTool)
  | removeTools (id : Uuid)
  | removeName (name : String)
  | removeSlug (id : Uuid)

/-- What Valkey, a server and the circuit breaker answer, and the order of a map. -/
structure Answer where
  ok : Bool
  tools : List McpTool
  order : List Uuid
  alive : List Bool

namespace ToolCache
variable (c : ToolCache)

def init (now : Millis) : ToolCache :=
  { now, l1 := ∅, nameToServer := fun _ => none, serverSlugs := fun _ => none, ops := [] }

def apply : Effect → ToolCache
  | .skip => c
  | .insertSlug id slug => { c with serverSlugs := Function.update c.serverSlugs id (some slug) }
  | .insertName name id => { c with nameToServer := Function.update c.nameToServer name (some id) }
  | .insertTools id tools => { c with l1 := c.l1.insert id { tools, fetchedAt := c.now } }
  | .removeTools id => { c with l1 := c.l1.erase id }
  | .removeName name => { c with nameToServer := Function.update c.nameToServer name none }
  | .removeSlug id => { c with serverSlugs := Function.update c.serverSlugs id none }

def serverIdOf (name : String) : Option Uuid := c.nameToServer name

def getToolRaw (name : String) : Option McpTool := do
  let id ← c.serverIdOf name
  let entry ← c.l1.lookup id
  entry.tools.find? fun t => t.namespacedName = name

/-- Whether the list of a server has a tool of this name. -/
def cachedBy (id : Uuid) (name : String) : Bool :=
  (c.l1.lookup id).any fun entry => entry.tools.any fun t => t.namespacedName = name

end ToolCache

/-- `raw_tool_name` -/
def rawToolName (namespaced : String) : String :=
  match "mcp_".toList.isPrefixOf? namespaced.toList with
  | none => namespaced
  | some s => if '_' ∈ s then String.ofList ((s.dropWhile (· ≠ '_')).drop 1) else namespaced

/-! ## Steps -/

namespace GetAll

/-- The tools of a server, up to the bound on all. -/
def push (g : GetAll) (maxTools : ℕ) (tools : List McpTool) : Op :=
  let tools := g.tools ++ tools.take (maxTools - g.tools.length)
  if maxTools ≤ tools.length then .returned g.allowed tools else .visit { g with tools }

/-- After `load_from_valkey` found nothing. -/
def resume : Option GetAll → Op
  | none => .finished
  | some g => .visit g

/-- After `load_from_valkey` stored what it found. -/
def loaded (maxTools : ℕ) (tools : List McpTool) : Option GetAll → Op
  | none => .finished
  | some g => g.push maxTools tools

def step (g : GetAll) (now : Millis) (maxTools : ℕ) : Op :=
  match g.rest with
  | [] => .returned g.allowed g.tools
  | (id, cached) :: rest =>
    if id ∉ g.online then .visit { g with rest }
    else if g.allowed.any (id ∉ ·) then .visit { g with rest }
    else if L1_TTL_MS < now - cached.fetchedAt then .get id (some { g with rest })
    else { g with rest }.push maxTools cached.tools

end GetAll

def Op.step (m : McpServers) (c : ToolCache) (answer : Answer) : Op → Option (Effect × Op)
  | .lock id => some (.skip, if answer.ok then .fetch id else .get id none)
  | .fetch id => some (.skip,
      match m.slugs.lookup id with
      | some serverName =>
        if answer.ok then .slug id (answer.tools.map (.fill id serverName)) else .finished
      | none => .finished)
  | .slug id tools => some (
      match tools.head? with
      | some first => .insertSlug id first.serverName
      | none => .skip,
      .names id [] tools none)
  | .names id entered (t :: rest) frame =>
    some (.insertName t.namespacedName id, .names id (entered ++ [t]) rest frame)
  | .names id entered [] frame =>
    some (.insertTools id entered, GetAll.loaded m.maxTools entered frame)
  | .get id frame =>
    let tools := if answer.ok then answer.tools else []
    if tools.isEmpty then some (.skip, GetAll.resume frame)
    else some (.skip, .names id [] (tools.map (.fill id ((c.serverSlugs id).getD ""))) frame)
  | .drop id forget => some (.removeTools id,
      .retract id ((c.l1.lookup id).elim [] CachedTools.tools) forget)
  | .retract id (t :: rest) forget => some (.removeName t.namespacedName, .retract id rest forget)
  | .retract id [] forget => some (if forget then .removeSlug id else .skip, .finished)
  | .snapshot allowed =>
    let entries := answer.order.filterMap fun id => (c.l1.lookup id).map fun e => (id, e)
    -- all of the map, in any order
    if !answer.order.isPerm c.l1.keys then none
    else if entries.isEmpty then some (.skip, .returned allowed [])
    else some (.skip, .liveness allowed entries)
  | .liveness allowed entries =>
    let alive := if answer.ok then answer.alive else []
    some (.skip, .visit
      { allowed, rest := entries, tools := []
        online := (entries.zip alive).filterMap fun s => if s.2 then some s.1.1 else none })
  | .visit g => some (.skip, g.step c.now m.maxTools)
  | .resolve allowed name offer => some (.skip,
      match c.serverIdOf name with
      | none => .unknown offer (offer.any fun t => c.cachedBy t.serverId name)
      | some id => if allowed.any (id ∉ ·) then .refused else .define allowed id name offer)
  | .define allowed id name offer => some (.skip,
      -- the circuit is open, or the result cache answers
      if !answer.ok then .refused
      else .executed allowed id (((c.getToolRaw name).map McpTool.name).getD (rawToolName name))
        offer)
  | .returned .. | .executed .. | .unknown .. | .refused | .finished => none

inductive Action
  | tick (ms : Millis)
  | refresh (id : Uuid)
  | cacheFetchedTools (id : Uuid) (tools : List McpTool)
  | loadFromValkey (id : Uuid)
  | invalidate (id : Uuid)
  | removeServer (id : Uuid)
  | getAll (allowed : Option (List Uuid))
  | call (allowed : Option (List Uuid)) (name : String)
  /-- A call of a tool that a `get_all` returned, by the same request. -/
  | callOffered (k i : ℕ)
  | run (k : ℕ) (answer : Answer)

namespace ToolCache

/-- The call an action starts. -/
def started (m : McpServers) (c : ToolCache) : Action → Option Op
  | .tick _ | .run .. => none
  | .refresh id => some (.lock id)
  | .cacheFetchedTools id tools => do
    let slug ← m.slugs.lookup id
    return if tools.isEmpty then .finished else .slug id (tools.map (.fill id slug))
  | .loadFromValkey id => some (.get id none)
  | .invalidate id => some (.drop id false)
  | .removeServer id => some (.drop id true)
  | .getAll allowed => some (.snapshot allowed)
  | .call allowed name => some (.resolve allowed name none)
  | .callOffered k i => do
    let op ← c.ops[k]?
    match op with
    | .returned allowed tools => do
      let t ← tools[i]?
      return .resolve allowed t.namespacedName (some t)
    | _ => none

def step (m : McpServers) (c : ToolCache) : Action → Option ToolCache
  | .tick ms => some { c with now := c.now + ms }
  | .run k answer => do
    let op ← c.ops[k]?
    let (effect, op') ← op.step m c answer
    return { c.apply effect with ops := advance c.ops k op' [] }
  | a => do
    let op ← c.started m a
    return { c with ops := c.ops ++ [op] }

end ToolCache

end Veronex.Mcp
