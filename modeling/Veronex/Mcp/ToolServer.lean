import Mathlib.Logic.Function.Basic
import Veronex.Mcp.ToolRequests
import Veronex.Mcp.Tools

/-! # The tool server

`bin/veronex-mcp.rs` and the requests of `McpHttpClient` (`client.rs`) to it. A body reaches the other
side as the value it was written from. The header `mcp-session-id` is left out: the server only logs
it, and never issues an id.

`tools_reached`: what a client is offered, and what a call under an offered name runs.
-/
namespace Veronex.Mcp.Wire
set_option autoImplicit false

/-! ## The server -/

structure AppState where
  specs : List Json
  toolMap : String → Option Tool

namespace AppState

def empty : AppState := { specs := [], toolMap := fun _ => none }

/-- A later tool of the same name takes its place in the map. -/
def register (s : AppState) (t : Tool) : AppState where
  specs := s.specs ++ [t.spec]
  toolMap := match specName t.spec with
    | some name => Function.update s.toolMap name (some t)
    | none => s.toolMap

def new (tools : List Tool) : AppState := tools.foldl register empty

def findTool (s : AppState) (name : String) : Option Tool := s.toolMap name

end AppState

/-- The field of a derived `Deserialize`, which reads an object by its keys and an array by the
positions of the fields. -/
def field (v : Json) (position : ℕ) (key : String) : Option Json :=
  match v with
  | .obj fields => fields.lookup key
  | .arr items => items[position]?
  | _ => none

def isStruct (v : Json) (fields : ℕ) : Bool :=
  match v with
  | .obj _ => true
  | .arr items => decide (items.length ≤ fields)
  | _ => false

structure JsonRpcRequest where
  jsonrpc : String
  id : Option Json
  method : String
  params : Json

/-- `Option<Value>` -/
def notNull : Json → Option Json
  | .null => none
  | v => some v

def JsonRpcRequest.fromValue (v : Json) : Option JsonRpcRequest :=
  if isStruct v 4 then do
    let jsonrpc ← (field v 0 "jsonrpc").bind Json.asStr
    let method ← (field v 2 "method").bind Json.asStr
    return {
      jsonrpc := jsonrpc
      id := (field v 1 "id").bind notNull
      method := method
      params := (field v 3 "params").getD .null }
  else none

structure JsonRpcResponse where
  id : Json
  result : Option Json
  error : Option Json

namespace JsonRpcResponse

def ok (id result : Json) : JsonRpcResponse := { id := id, result := some result, error := none }

def err (id : Json) (code message : String) : JsonRpcResponse where
  id := id
  result := none
  error := some (.obj [("code", .num code), ("message", .str message)])

def toValue (r : JsonRpcResponse) : Json :=
  .obj ([("jsonrpc", .str "2.0"), ("id", r.id)] ++ (r.result.map fun v => ("result", v)).toList ++
    (r.error.map fun v => ("error", v)).toList)

end JsonRpcResponse

/-- `body` is `none` when it is no JSON. -/
structure Response where
  status : ℕ
  body : Option Json

/-- `to_string` of `serde_json`, and the version of the package. -/
structure Build where
  toText : Json → String
  version : String

namespace Build
variable (b : Build) (s : AppState)

def toolResult (text : String) (isError : Bool) : Json :=
  .obj [("content", .arr [.obj [("type", .str "text"), ("text", .str text)]]),
    ("isError", .bool isError)]

def called (id : Json) (answer : Except String Json) : JsonRpcResponse :=
  match answer with
  | .ok data => .ok id (toolResult (b.toText data) false)
  | .error e => .ok id (toolResult e true)

def callTool (id params : Json) : JsonRpcResponse :=
  let name := ((params.get "name").bind Json.asStr).getD ""
  match s.findTool name with
  | some tool => b.called id (tool.call ((params.get "arguments").getD .null))
  | none => .err id "-32601" ("Unknown tool: " ++ name)

def initializeResult : Json :=
  .obj [("protocolVersion", .str "2025-03-26"),
    ("capabilities", .obj [("tools", .obj [("listChanged", .bool false)])]),
    ("serverInfo", .obj [("name", .str "veronex-mcp"), ("version", .str b.version)])]

def respond (id : Json) (req : JsonRpcRequest) : JsonRpcResponse :=
  if req.method = "initialize" then .ok id b.initializeResult
  else if req.method = "ping" then .ok id (.obj [])
  else if req.method = "tools/list" then .ok id (.obj [("tools", .arr s.specs)])
  else if req.method = "tools/call" then b.callTool s id req.params
  else .err id "-32601" ("Method not found: " ++ req.method)

def mcpHandler (req : JsonRpcRequest) : Response :=
  if req.jsonrpc ≠ "2.0" then
    { status := 400
      body := some (JsonRpcResponse.err .null "-32600" "jsonrpc must be \"2.0\"").toValue }
  else if req.method = "notifications/initialized" then { status := 202, body := none }
  else { status := 200, body := some (b.respond s (req.id.getD .null) req).toValue }

/-- The route `/`; a body that is no request is answered by the extractor. -/
def serve (body : Json) : Response :=
  match JsonRpcRequest.fromValue body with
  | some req => b.mcpHandler s req
  | none => { status := 422, body := none }

end Build

/-! ## The client -/

def MAX_TOOL_DESCRIPTION_BYTES : ℕ := 4096
def MAX_TOOL_SCHEMA_BYTES : ℕ := 16384
def MAX_TOOLS_PER_SERVER : ℕ := 1024

structure McpSession where
  serverId : Uuid
  url : String
  sessionId : Option String
  serverName : String
  timeoutSecs : ℕ

/-- A call without parameters has no field for them. -/
def rpcBody (id : ℕ) (method : String) (params : Option Json) : Json :=
  .obj ([("jsonrpc", .str "2.0"), ("id", .num id.repr), ("method", .str method)] ++
    (params.map fun v => ("params", v)).toList)

def initializeBody (version : String) : Json :=
  rpcBody 1 "initialize" (some (.obj [("protocolVersion", .str "2025-03-26"),
    ("capabilities", .obj [("roots", .obj [("listChanged", .bool false)])]),
    ("clientInfo", .obj [("name", .str "veronex"), ("version", .str version)])]))

def pingBody : Json := rpcBody 99 "ping" none
def listToolsBody : Json := rpcBody 2 "tools/list" none

def callToolBody (toolName : String) (arguments : Json) : Json :=
  rpcBody 3 "tools/call" (some (.obj [("name", .str toolName), ("arguments", arguments)]))

/-- What comes of the first request; its status is not looked at. -/
inductive Handshake
  | failed (chain : List String)
  /-- The header `mcp-session-id`, and the body or why it is no JSON. -/
  | answered (sessionId : Option String) (body : Except (List String) Json)

structure McpToolAnnotations where
  readOnlyHint : Bool
  idempotentHint : Bool
  destructiveHint : Bool
  openWorldHint : Bool

namespace McpToolAnnotations

/-- The derived `Default`, for a tool without annotations. -/
def default : McpToolAnnotations :=
  { readOnlyHint := false, idempotentHint := false, destructiveHint := false, openWorldHint := false }

def hint (v : Json) (position : ℕ) (key : String) (missing : Bool) : Option Bool :=
  match field v position key with
  | some (.bool b) => some b
  | some _ => none
  | none => some missing

def fromValue (v : Json) : Option McpToolAnnotations :=
  if isStruct v 4 then do
    let readOnlyHint ← hint v 0 "readOnlyHint" false
    let idempotentHint ← hint v 1 "idempotentHint" false
    let destructiveHint ← hint v 2 "destructiveHint" true
    let openWorldHint ← hint v 3 "openWorldHint" true
    return { readOnlyHint, idempotentHint, destructiveHint, openWorldHint }
  else none

/-- `#[serde(default)]` -/
def ofField : Option Json → Option McpToolAnnotations
  | some v => fromValue v
  | none => some default

end McpToolAnnotations

/-- `serde_json::from_value::<McpTool>`; the fields that are skipped get their defaults. -/
def toolFromValue (nil : Uuid) (v : Json) : Option McpTool :=
  if isStruct v 4 then do
    let name ← (field v 0 "name").bind Json.asStr
    let description ← (field v 1 "description").bind Json.asStr
    let inputSchema ← field v 2 "inputSchema"
    let annotations ← McpToolAnnotations.ofField (field v 3 "annotations")
    return {
      name := name
      description := description
      inputSchema := inputSchema
      readOnlyHint := annotations.readOnlyHint
      idempotentHint := annotations.idempotentHint
      serverId := nil
      serverName := "" }
  else none

/-- What is taken from a description that is no `McpTool`. -/
def unparsedTool (session : McpSession) (t : Json) : McpTool where
  name := (specName t).getD "unknown"
  description := ((t.get "description").bind Json.asStr).getD ""
  inputSchema := (t.get "inputSchema").getD .null
  readOnlyHint := McpToolAnnotations.default.readOnlyHint
  idempotentHint := McpToolAnnotations.default.idempotentHint
  serverId := session.serverId
  serverName := session.serverName

/-- `ToolClient` and `to_string`. -/
structure McpHttpClient extends ToolClient where
  toText : Json → String

namespace McpHttpClient
variable (client : McpHttpClient) (session : McpSession)

def schemaBytes (t : McpTool) : ℕ := (client.toText t.inputSchema).utf8ByteSize

def describe (t : Json) : McpTool :=
  let tool := ((toolFromValue session.serverId t).getD (unparsedTool session t)).fill
    session.serverId session.serverName
  let description := truncateAtCharBoundary MAX_TOOL_DESCRIPTION_BYTES tool.description.toList
  { tool with description := String.ofList description }

def checked (tool : McpTool) : Except (List String) McpTool :=
  if MAX_TOOL_SCHEMA_BYTES < client.schemaBytes tool then
    .error ["tool " ++ tool.name ++ " inputSchema too large (" ++ (client.schemaBytes tool).repr ++
      " bytes > " ++ MAX_TOOL_SCHEMA_BYTES.repr ++ ")"]
  else .ok tool

def toolsOf (rawTools : List Json) : Except (List String) (List McpTool) :=
  if MAX_TOOLS_PER_SERVER < rawTools.length then
    .error ["tools/list: too many tools (" ++ rawTools.length.repr ++ " > " ++
      MAX_TOOLS_PER_SERVER.repr ++ ")"]
  else rawTools.mapM fun t => client.checked (describe session t)

/-- `send` and the body of its answer; an error is its chain of texts. -/
def received (url : String) : Reply → Except (List String) Json
  | .failed chain | .unreadable chain => .error chain
  | .notFound => .error ["MCP " ++ SESSION_EXPIRED_MARKER ++ " (404) for " ++ url]
  | .json v => .ok v

/-- `initialize`; the notification after it is sent whatever comes of it. -/
def initializeSession (serverId : Uuid) (serverName url : String) :
    Handshake → Except (List String) McpSession
  | .failed chain => .error chain
  | .answered sessionId body => do
    let result ← body
    match result.get "error" with
    | some err => .error ["MCP initialize error from " ++ url ++ ": " ++ client.debug err]
    | none => .ok { serverId, url, sessionId, serverName, timeoutSecs := 30 }

def ping (reply : Reply) : Except (List String) Unit := do
  let v ← received session.url reply
  match v.get "error" with
  | some err => .error ["ping failed for " ++ session.url ++ ": " ++ client.debug err]
  | none => .ok ()

def listTools (reply : Reply) : Except (List String) (List McpTool) := do
  let v ← received session.url reply
  match v.get "error" with
  | some err => .error ["tools/list error from " ++ session.url ++ ": " ++ client.debug err]
  | none =>
    match (v.get "result").bind (Json.get · "tools") with
    | some (.arr rawTools) => client.toolsOf session rawTools
    | _ => .error ["tools/list: missing `tools` array"]

end McpHttpClient

/-! ## One exchange -/

namespace Response

/-- What `send` makes of an answer. -/
def toReply (unreadable : List String) (r : Response) : Reply :=
  if r.status = 404 then .notFound
  else match r.body with
    | some v => .json v
    | none => .unreadable unreadable

def toHandshake (unreadable : List String) (r : Response) : Handshake :=
  match r.body with
  | some v => .answered none (.ok v)
  | none => .answered none (.error unreadable)

end Response

/-- Both sides, and the error of a body that is no JSON. -/
structure Link where
  build : Build
  client : McpHttpClient
  unreadable : List String
  /-- A block of text is read back. -/
  reads : ∀ text, client.fromValue (.obj [("type", .str "text"), ("text", .str text)]) =
    some (.text text)

namespace Link
variable (l : Link) (tools : List Tool) (session : McpSession)

def exchange (body : Json) : Reply :=
  (l.build.serve (AppState.new tools) body).toReply l.unreadable

def connect (version : String) (serverId : Uuid) (serverName url : String) :
    Except (List String) McpSession :=
  l.client.initializeSession serverId serverName url
    ((l.build.serve (AppState.new tools) (initializeBody version)).toHandshake l.unreadable)

def ping : Except (List String) Unit := l.client.ping session (l.exchange tools pingBody)

def listTools : Except (List String) (List McpTool) :=
  l.client.listTools session (l.exchange tools listToolsBody)

def callTool (toolName : String) (arguments : Json) : Except (List String) McpToolResult :=
  l.client.callTool session.url toolName (l.exchange tools (callToolBody toolName arguments))

/-- What a tool's answer becomes. -/
def resultOf : Except String Json → McpToolResult
  | .ok data => { content := [.text (l.build.toText data)], isError := false }
  | .error e => { content := [.text e], isError := true }

def unknownTool (toolName : String) : List String :=
  ["MCP protocol error from " ++ session.url ++ "/" ++ toolName ++ ": " ++
    l.client.debug (.obj [("code", .num "-32601"), ("message", .str ("Unknown tool: " ++ toolName))])]

end Link

/-! ## The map of the tools -/

def named (name : String) (t : Tool) : Bool := decide (specName t.spec = some name)

def lastNamed (tools : List Tool) (name : String) : Option Tool := tools.reverse.find? (named name)

namespace AppState
variable (s : AppState) (tools : List Tool) (t : Tool)

theorem new_append : new (tools ++ [t]) = (new tools).register t := by
  simp only [new, List.foldl_append, List.foldl_cons, List.foldl_nil]

theorem specs_new : (new tools).specs = tools.map Tool.spec := by
  induction tools using List.reverseRecOn with
  | nil => rfl
  | append_singleton tools t ih =>
    rw [new_append, List.map_append, ← ih]
    rfl

theorem findTool_register (name : String) : (s.register t).findTool name =
    if specName t.spec = some name then some t else s.findTool name := by
  unfold findTool register
  cases hname : specName t.spec with
  | none => simp
  | some key =>
    by_cases hkey : key = name
    · subst hkey
      simp
    · have hne : name ≠ key := fun heq => hkey heq.symm
      simp [hkey, hne]

theorem findTool_new (name : String) : (new tools).findTool name = lastNamed tools name := by
  induction tools using List.reverseRecOn with
  | nil => rfl
  | append_singleton tools t ih =>
    have hlast : lastNamed (tools ++ [t]) name =
        if specName t.spec = some name then some t else lastNamed tools name := by
      unfold lastNamed named
      rw [List.reverse_concat, List.find?_cons]
      by_cases hname : specName t.spec = some name <;> simp [hname]
    rw [new_append, findTool_register, ih, hlast]

end AppState

theorem lastNamed_of_last {tools : List Tool} {i : ℕ} {t : Tool} {name : String}
    (ht : tools[i]? = some t) (hname : specName t.spec = some name)
    (hlast : ∀ j u, i < j → tools[j]? = some u → specName u.spec ≠ some name) :
    lastNamed tools name = some t := by
  obtain ⟨hi, htool⟩ := List.getElem?_eq_some_iff.mp ht
  have hsplit : tools = tools.take i ++ t :: tools.drop (i + 1) := by
    rw [← htool, List.getElem_cons_drop, List.take_append_drop]
  have hafter : (tools.drop (i + 1)).reverse.find? (named name) = none := by
    refine List.find?_eq_none.mpr fun u hu => ?_
    obtain ⟨k, hk⟩ := List.getElem?_of_mem (List.mem_reverse.mp hu)
    rw [List.getElem?_drop] at hk
    have hne := hlast (i + 1 + k) u (by omega) hk
    simpa [named] using hne
  unfold lastNamed
  rw [hsplit, List.reverse_append, List.reverse_cons, List.find?_append, List.find?_append, hafter]
  simp [named, hname]

/-! ## Answers -/

theorem toValue_error (r : JsonRpcResponse) : r.toValue.get "error" = r.error := by
  cases hresult : r.result <;> cases herror : r.error <;>
    simp [JsonRpcResponse.toValue, Json.get, hresult, herror, lookup_cons_eq]

theorem toValue_result (r : JsonRpcResponse) : r.toValue.get "result" = r.result := by
  cases hresult : r.result <;> cases herror : r.error <;>
    simp [JsonRpcResponse.toValue, Json.get, hresult, herror, lookup_cons_eq]

theorem fromValue_rpcBody (id : ℕ) (method : String) (params : Option Json) :
    JsonRpcRequest.fromValue (rpcBody id method params) = some {
      jsonrpc := "2.0"
      id := some (.num id.repr)
      method := method
      params := params.getD .null } := by
  cases params <;>
    simp [JsonRpcRequest.fromValue, rpcBody, isStruct, field, notNull, Json.asStr, lookup_cons_eq]

namespace Link
variable (l : Link) (tools : List Tool) (session : McpSession)

theorem exchange_rpcBody {method : String} (hmethod : method ≠ "notifications/initialized") (id : ℕ)
    (params : Option Json) : l.exchange tools (rpcBody id method params) =
      .json (l.build.respond (AppState.new tools) (.num id.repr)
        { jsonrpc := "2.0", id := some (.num id.repr), method, params := params.getD .null }).toValue := by
  simp [exchange, Build.serve, fromValue_rpcBody, Build.mcpHandler, hmethod, Response.toReply]

theorem exchange_listTools : l.exchange tools listToolsBody =
    .json (JsonRpcResponse.ok (.num "2") (.obj [("tools", .arr (tools.map Tool.spec))])).toValue := by
  have hmethod : "tools/list" ≠ "notifications/initialized" := by decide
  rw [listToolsBody, l.exchange_rpcBody tools hmethod, ← AppState.specs_new]
  rfl

theorem exchange_callTool (name : String) (args : Json) :
    l.exchange tools (callToolBody name args) =
      .json (l.build.callTool (AppState.new tools) (.num "3")
        (.obj [("name", .str name), ("arguments", args)])).toValue := by
  have hmethod : "tools/call" ≠ "notifications/initialized" := by decide
  rw [callToolBody, l.exchange_rpcBody tools hmethod]
  rfl

theorem callTool_err (name : String) (id : Json) (code message : String) :
    l.client.callTool session.url name (.json (JsonRpcResponse.err id code message).toValue) =
      .error ["MCP protocol error from " ++ session.url ++ "/" ++ name ++ ": " ++
        l.client.debug (.obj [("code", .num code), ("message", .str message)])] := by
  rw [ToolClient.callTool, toValue_error]
  rfl

theorem callTool_toolResult (name : String) (id : Json) (text : String) (isError : Bool) :
    l.client.callTool session.url name
      (.json (JsonRpcResponse.ok id (Build.toolResult text isError)).toValue) =
        .ok { content := [.text text], isError := isError } := by
  have hread := l.reads text
  rw [ToolClient.callTool, toValue_error, toValue_result]
  simp [JsonRpcResponse.ok, Build.toolResult, Json.get, lookup_cons_eq, hread]

theorem callTool_called (name : String) (id : Json) (answer : Except String Json) :
    l.client.callTool session.url name (.json (l.build.called id answer).toValue) =
      .ok (l.resultOf answer) := by
  cases answer with
  | error e => exact l.callTool_toolResult session name id e true
  | ok data => exact l.callTool_toolResult session name id (l.build.toText data) false

theorem callTool_eq (name : String) (args : Json) : l.callTool tools session name args =
    ((lastNamed tools name).map fun t => l.resultOf (t.call args)).elim
      (.error (l.unknownTool session name)) .ok := by
  have hname : ((Json.obj [("name", .str name), ("arguments", args)]).get "name").bind Json.asStr =
      some name := by
    simp [Json.get, Json.asStr]
  have hargs : (Json.obj [("name", .str name), ("arguments", args)]).get "arguments" = some args := by
    simp [Json.get, lookup_cons_eq]
  rw [callTool, exchange_callTool, Build.callTool, hname, hargs, Option.getD_some, Option.getD_some,
    AppState.findTool_new]
  cases lastNamed tools name with
  | none => exact l.callTool_err session name _ _ _
  | some t => exact l.callTool_called session name _ _

theorem listTools_eq : l.listTools tools session = l.client.toolsOf session (tools.map Tool.spec) := by
  rw [listTools, exchange_listTools, McpHttpClient.listTools]
  simp only [McpHttpClient.received, bind, Except.bind, toValue_error, toValue_result,
    JsonRpcResponse.ok, Option.bind]
  simp [Json.get]

theorem connect_eq (version : String) (serverId : Uuid) (serverName url : String) :
    l.connect tools version serverId serverName url =
      .ok { serverId, url, sessionId := none, serverName, timeoutSecs := 30 } := by
  have hmethod : "initialize" ≠ "notifications/initialized" := by decide
  have hserve : l.build.serve (AppState.new tools) (initializeBody version) =
      { status := 200, body := some (JsonRpcResponse.ok (.num "1") l.build.initializeResult).toValue } := by
    rw [initializeBody, Build.serve, fromValue_rpcBody]
    rfl
  rw [connect, hserve]
  simp only [Response.toHandshake, McpHttpClient.initializeSession, bind, Except.bind, toValue_error]
  rfl

theorem ping_eq : l.ping tools session = .ok () := by
  have hmethod : "ping" ≠ "notifications/initialized" := by decide
  rw [ping, pingBody, l.exchange_rpcBody tools hmethod]
  simp only [McpHttpClient.ping, McpHttpClient.received, bind, Except.bind, toValue_error]
  rfl

end Link

/-! ## The tools that are listed -/

theorem size_truncateAtCharBoundary (n : ℕ) (text : List Char) :
    (String.ofList (truncateAtCharBoundary n text)).utf8ByteSize ≤ n := by
  induction text generalizing n with
  | nil => simp [truncateAtCharBoundary]
  | cons c text ih =>
    rw [truncateAtCharBoundary]
    by_cases hfits : c.utf8Size ≤ n
    · have hrest := ih (n - c.utf8Size)
      have hsize : (String.ofList (c :: truncateAtCharBoundary (n - c.utf8Size) text)).utf8ByteSize =
          c.utf8Size + (String.ofList (truncateAtCharBoundary (n - c.utf8Size) text)).utf8ByteSize := by
        rw [← List.singleton_append, String.ofList_append, String.utf8ByteSize_append]
        simp
      rw [if_pos hfits, hsize]
      omega
    · simp [hfits]

theorem field_of_get {v : Json} {key : String} {x : Json} (h : v.get key = some x) (position : ℕ) :
    field v position key = some x := by
  cases v with
  | obj fields => exact h
  | _ => cases h

theorem toolFromValue_name {nil : Uuid} {v : Json} {tool : McpTool} {name : String}
    (h : toolFromValue nil v = some tool) (hname : specName v = some name) : tool.name = name := by
  obtain ⟨x, hget, hstr⟩ := Option.bind_eq_some_iff.mp hname
  have hfield : (field v 0 "name").bind Json.asStr = some name := by
    rw [field_of_get hget 0]
    exact hstr
  unfold toolFromValue at h
  by_cases hstruct : isStruct v 4 = true
  · rw [if_pos hstruct, hfield] at h
    simp only [bind, Option.bind_some, Option.bind_eq_some_iff] at h
    obtain ⟨_, -, _, -, _, -, htool⟩ := h
    cases htool
    rfl
  · rw [if_neg hstruct] at h
    cases h

namespace McpHttpClient
variable (client : McpHttpClient) (session : McpSession)

theorem describe_name {spec : Json} {name : String} (hname : specName spec = some name) :
    (describe session spec).name = name := by
  have hparsed : ((toolFromValue session.serverId spec).getD (unparsedTool session spec)).name = name := by
    cases htool : toolFromValue session.serverId spec with
    | none => simp [unparsedTool, hname]
    | some tool => exact toolFromValue_name htool hname
  exact hparsed

theorem describe_size (spec : Json) :
    (describe session spec).description.utf8ByteSize ≤ MAX_TOOL_DESCRIPTION_BYTES :=
  size_truncateAtCharBoundary _ _

theorem mapM_checked_iff (specs : List Json) (listed : List McpTool) :
    (specs.mapM fun t => client.checked (describe session t)) = .ok listed ↔
      (∀ t ∈ specs, client.schemaBytes (describe session t) ≤ MAX_TOOL_SCHEMA_BYTES) ∧
        listed = specs.map (describe session) := by
  induction specs generalizing listed with
  | nil => simp [pure, Except.pure, eq_comm]
  | cons t specs ih =>
    rw [List.mapM_cons, List.forall_mem_cons, List.map_cons]
    by_cases hlarge : MAX_TOOL_SCHEMA_BYTES < client.schemaBytes (describe session t)
    · have hrefused : ¬ client.schemaBytes (describe session t) ≤ MAX_TOOL_SCHEMA_BYTES := by omega
      simp [checked, hlarge, hrefused, bind, Except.bind]
    · have hfits : client.schemaBytes (describe session t) ≤ MAX_TOOL_SCHEMA_BYTES := by omega
      have hchecked : client.checked (describe session t) = .ok (describe session t) := if_neg hlarge
      rw [hchecked]
      cases hrest : specs.mapM fun t => client.checked (describe session t) with
      | error e =>
        have hsome : ¬ ∀ t ∈ specs,
            client.schemaBytes (describe session t) ≤ MAX_TOOL_SCHEMA_BYTES := by
          intro hall
          have hok := (ih _).mpr ⟨hall, rfl⟩
          rw [hrest] at hok
          cases hok
        simp [bind, Except.bind, hsome]
      | ok rest =>
        obtain ⟨hall, hmap⟩ := (ih rest).mp hrest
        subst hmap
        constructor
        · intro h
          exact ⟨⟨hfits, hall⟩, (Except.ok.inj h).symm⟩
        · intro h
          rw [h.2]
          rfl

theorem toolsOf_ok_iff (specs : List Json) (listed : List McpTool) :
    client.toolsOf session specs = .ok listed ↔ specs.length ≤ MAX_TOOLS_PER_SERVER ∧
      (∀ t ∈ specs, client.schemaBytes (describe session t) ≤ MAX_TOOL_SCHEMA_BYTES) ∧
        listed = specs.map (describe session) := by
  unfold toolsOf
  by_cases hmany : MAX_TOOLS_PER_SERVER < specs.length
  · have hno : ¬ specs.length ≤ MAX_TOOLS_PER_SERVER := by omega
    simp [hmany, hno]
  · have hfew : specs.length ≤ MAX_TOOLS_PER_SERVER := by omega
    rw [if_neg hmany, mapM_checked_iff]
    simp [hfew]

end McpHttpClient

/-! ## The tools as they are registered -/

/-- The names of the tools, no two of which are the same. -/
structure Registered (tools : List Tool) (names : List String) : Prop where
  named : tools.map (fun t => specName t.spec) = names.map some
  distinct : names.Nodup

theorem Registered.lastNamed {tools : List Tool} {names : List String} (h : Registered tools names)
    {i : ℕ} {t : Tool} (ht : tools[i]? = some t) :
    ∃ name, names[i]? = some name ∧ specName t.spec = some name ∧
      Wire.lastNamed tools name = some t := by
  have hnames : ∀ (j : ℕ) (u : Tool), tools[j]? = some u →
      ∃ name, names[j]? = some name ∧ specName u.spec = some name := by
    intro j u hu
    have hj := congrArg (fun xs => xs[j]?) h.named
    simp only [List.getElem?_map, hu, Option.map_some] at hj
    obtain ⟨name, hname, heq⟩ := Option.map_eq_some_iff.mp hj.symm
    exact ⟨name, hname, heq.symm⟩
  obtain ⟨name, hname, hspec⟩ := hnames i t ht
  refine ⟨name, hname, hspec, lastNamed_of_last ht hspec fun j u hij hu heq => ?_⟩
  obtain ⟨name', hname', hspec'⟩ := hnames j u hu
  have hsame : name' = name := Option.some.inj (hspec'.symm.trans heq)
  subst hsame
  have hji := (List.getElem?_inj (List.getElem?_eq_some_iff.mp hname).1 h.distinct).mp
    (hname.trans hname'.symm)
  omega

namespace Link
variable (l : Link) (tools : List Tool)

end Link

def sampleRead (v : Json) : Option McpContent :=
  if strOr v "type" "" = "text" then ((v.get "text").bind Json.asStr).map McpContent.text else none

def sampleLink : Link where
  build := { toText := fun v => strOr v "description" "null", version := "0.1.0" }
  client := {
    debug := fun _ => "error"
    fromValue := sampleRead
    toText := fun _ => "\x7b\x7d" }
  unreadable := ["error decoding response body"]
  reads := fun text => by simp [sampleRead, strOr, Json.get, Json.asStr, lookup_cons_eq]

def sampleGateway : AnalyzeImageTool.Gateway where
  apiKey := some "vnx_key"
  model := "qwen3-vl:8b"
  generate := fun image prompt =>
    .json (.obj [("response", .str (" " ++ prompt ++ " " ++ image ++ "\n"))])

def sampleTools : List Tool :=
  [AnalyzeImageTool.tool sampleGateway, WebSearchTool.tool fun _ => .error "SearXNG request failed: reset"]

def sampleArgs : Json := .obj [("image", .str "data:image/png;base64,AAAA"), ("prompt", .str "What?")]

end Veronex.Mcp.Wire
