import Veronex.Telemetry.Otlp

/-! # Rows of a message

`veronex-consumer/src/handlers`: the rows that the payload of a message stands for. A payload is what
`serde_json` and `std::str::from_utf8` make of its bytes.
-/
namespace Veronex.Telemetry
set_option autoImplicit false

/-- `json`: the value of the bytes, if they are one; `text`: their text, if they are UTF-8. -/
structure Payload where
  json : Option Json
  text : Option String

/-- `.get(key).and_then(Value::as_array).cloned().unwrap_or_default()` -/
def itemsOf (v : Json) (key : String) : List Json := ((v.get key).bind Json.asArray).getD []

/-- `.get(key).and_then(Value::as_str).unwrap_or(default)` -/
def strOr (v : Json) (key default : String) : String := ((v.get key).bind Json.asStr).getD default

def resourceAttrs (floats : Floats) (v : Json) : AttrMap :=
  attrsToMap floats (((v.get "resource").getD .null).get "attributes")

/-! ## Logs -/

structure LogRows where
  otelLogs : List Json
  inferenceLogs : List Json
  auditEvents : List Json
  mcpToolCalls : List Json

namespace LogRows

def empty : LogRows := ⟨[], [], [], []⟩

def extend (rows other : LogRows) : LogRows where
  otelLogs := rows.otelLogs ++ other.otelLogs
  inferenceLogs := rows.inferenceLogs ++ other.inferenceLogs
  auditEvents := rows.auditEvents ++ other.auditEvents
  mcpToolCalls := rows.mcpToolCalls ++ other.mcpToolCalls

@[simp] theorem empty_extend (rows : LogRows) : empty.extend rows = rows := rfl

end LogRows

def otelLogRow (service : AttrMap) (lr : Json) (timestampNs : ℕ) (attrs : AttrMap) : Json :=
  .obj [("Timestamp", .ofNat timestampNs),
    ("TraceId", .str (strOr lr "traceId" "")),
    ("SpanId", .str (strOr lr "spanId" "")),
    ("SeverityText", .str (strOr lr "severityText" "INFO")),
    ("SeverityNumber", .num (toString (((lr.get "severityNumber").bind Json.asI64).getD 9))),
    ("ServiceName", .str (service.text "service.name")),
    ("Body", .str ((((lr.get "body").bind (Json.get · "stringValue")).bind Json.asStr).getD "")),
    ("ResourceAttributes", service.toJson),
    ("LogAttributes", attrs.toJson)]

def inferenceRow (timestampMs : ℕ) (attrs : AttrMap) : Json :=
  .obj [("event_time", .ofNat timestampMs),
    ("api_key_id", .str (attrs.text "api_key_id")),
    ("tenant_id", .str (attrs.text "tenant_id")),
    ("request_id", .str (attrs.text "request_id")),
    ("model_name", .str (attrs.text "model_name")),
    ("prompt_tokens", .ofNat (attrs.number 32 "prompt_tokens")),
    ("completion_tokens", .ofNat (attrs.number 32 "completion_tokens")),
    ("latency_ms", .ofNat (attrs.number 32 "latency_ms")),
    ("finish_reason", .str (attrs.text "finish_reason")),
    ("status", .str (attrs.text "status"))]

def auditRow (timestampMs : ℕ) (attrs : AttrMap) : Json :=
  .obj [("event_time", .ofNat timestampMs),
    ("account_id", .str (attrs.text "account_id")),
    ("account_name", .str (attrs.text "account_name")),
    ("action", .str (attrs.text "action")),
    ("resource_type", .str (attrs.text "resource_type")),
    ("resource_id", .str (attrs.text "resource_id")),
    ("resource_name", .str (attrs.text "resource_name")),
    ("ip_address", .str (attrs.text "ip_address")),
    ("details", .str (attrs.text "details"))]

/-- Unlike `inferenceRow`, an `api_key_id` that is absent is the nil UUID here. -/
def mcpToolCallRow (timestampMs : ℕ) (attrs : AttrMap) : Json :=
  .obj [("event_time", .ofNat timestampMs),
    ("request_id", .str (attrs.text "request_id")),
    ("api_key_id",
      .str ((attrs.lookup "api_key_id").getD "00000000-0000-0000-0000-000000000000")),
    ("tenant_id", .str (attrs.text "tenant_id")),
    ("server_id", .str (attrs.text "server_id")),
    ("server_slug", .str (attrs.text "server_slug")),
    ("tool_name", .str (attrs.text "tool_name")),
    ("namespaced_name", .str (attrs.text "namespaced_name")),
    ("outcome", .str (attrs.text "outcome")),
    ("cache_hit", .ofNat (attrs.number 8 "cache_hit")),
    ("latency_ms", .ofNat (attrs.number 32 "latency_ms")),
    ("result_bytes", .ofNat (attrs.number 32 "result_bytes")),
    ("cap_charged", .ofNat (attrs.number 8 "cap_charged")),
    ("loop_round", .ofNat (attrs.number 8 "loop_round"))]

/-- The rows of one log record. -/
def recordRows (floats : Floats) (service : AttrMap) (lr : Json) : LogRows :=
  let timeNs := strOr lr "timeUnixNano" "0"
  let timestampMs := nanoStrToMs timeNs
  let attrs := attrsToMap floats (lr.get "attributes")
  let rows : LogRows := ⟨[otelLogRow service lr (nanoStrToNs timeNs) attrs], [], [], []⟩
  if attrs.text "event.name" = "inference.completed" then
    { rows with inferenceLogs := [inferenceRow timestampMs attrs] }
  else if attrs.text "event.name" = "audit.action" then
    { rows with auditEvents := [auditRow timestampMs attrs] }
  else if attrs.text "event.name" = "mcp.tool_call" then
    { rows with mcpToolCalls := [mcpToolCallRow timestampMs attrs] }
  else rows

namespace Logs

/-- The rows of a batch. -/
def rowsOf (floats : Floats) (root : Json) : LogRows :=
  (itemsOf root "resourceLogs").foldl (fun out rm =>
    (itemsOf rm "scopeLogs").foldl (fun out sl =>
      (itemsOf sl "logRecords").foldl (fun out lr =>
        out.extend (recordRows floats (resourceAttrs floats rm) lr)) out) out) .empty

def parse (floats : Floats) (payload : Payload) : Option LogRows := payload.json.map (rowsOf floats)

end Logs

/-! ## Metrics -/

def metricRow (floats : Floats) (serverId metricName : String) (dp : Json) : Json :=
  .obj [("ts", .ofNat (nanoStrToNs (strOr dp "timeUnixNano" "0"))),
    ("server_id", .str serverId),
    ("metric_name", .str metricName),
    ("value", .num (floats.json (((dp.get "asDouble").bind Json.asF64).getD "0.0"))),
    ("attributes", (attrsToMap floats (dp.get "attributes")).toJson)]

namespace Metrics

/-- A gauge or a sum. -/
def dataPoints (metric : Json) : List Json :=
  ((((metric.get "gauge").or (metric.get "sum")).bind (Json.get · "dataPoints")).bind
    Json.asArray).getD []

def rowsOf (floats : Floats) (root : Json) : List Json :=
  (itemsOf root "resourceMetrics").flatMap fun rm =>
    (itemsOf rm "scopeMetrics").flatMap fun sm =>
      (itemsOf sm "metrics").flatMap fun metric =>
        (dataPoints metric).map (metricRow floats ((resourceAttrs floats rm).text "server_id")
          (strOr metric "name" ""))

def parse (floats : Floats) (payload : Payload) : Option (List Json) :=
  payload.json.map (rowsOf floats)

end Metrics

/-! ## Traces -/

def Traces.parse (payload : Payload) : Option (List Json) :=
  payload.text.map fun text => [.obj [("payload", .str text)]]

end Veronex.Telemetry
