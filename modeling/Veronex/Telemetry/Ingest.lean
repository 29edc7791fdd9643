import Veronex.Foundation.FixedDigits
import Veronex.Telemetry.Otlp

/-! # Ingested events

`veronex-analytics`: `handlers/ingest.rs` turns the events of the API server into log records, and
`otel.rs` sends each of them to the collector. A time is the number of nanoseconds since the epoch.
-/
namespace Veronex.Telemetry
set_option autoImplicit false

/-- `Uuid` -/
abbrev EventId := BitVec 128

def EVENT_ID_GROUPS : List ℕ := [8, 4, 4, 4, 12]

/-- `Uuid::to_string` -/
def EventId.text (id : EventId) : String :=
  .ofList (FixedDigits.writeGroups 16 Nat.digitChar '-' EVENT_ID_GROUPS id.toNat)

example : EventId.text 0x0191d2c4_9b7a_7c3e_8f10_00000000002a#128 =
    "0191d2c4-9b7a-7c3e-8f10-00000000002a" := by decide +kernel

def ALLOWED_EVENT_TYPES : List String := ["inference.completed", "audit.action", "mcp.tool_call"]

structure IngestInferenceRequest where
  eventTime : ℤ
  requestId : EventId
  apiKeyId : Option EventId
  tenantId : String
  modelName : String
  providerType : String
  promptTokens : UInt32
  completionTokens : UInt32
  latencyMs : UInt32
  finishReason : String
  status : String
  errorMsg : Option String

structure IngestAuditRequest where
  eventTime : ℤ
  accountId : EventId
  accountName : String
  action : String
  resourceType : String
  resourceId : String
  resourceName : String
  ipAddress : Option String
  details : Option String

structure IngestMcpToolCallRequest where
  eventTime : ℤ
  requestId : EventId
  apiKeyId : Option EventId
  tenantId : String
  serverId : EventId
  serverSlug : String
  toolName : String
  namespacedName : String
  outcome : String
  cacheHit : Bool
  latencyMs : UInt32
  resultBytes : UInt32
  capCharged : UInt8
  loopRound : UInt8

inductive StatusCode
  | accepted
  | badRequest
  deriving DecidableEq

/-- `Err(BAD_REQUEST)` where a field is empty or the event type is not one of the list. -/
def validateFields (eventType : String) (fields : List String) : Except StatusCode Unit :=
  if fields.any (· = "") then .error .badRequest
  else if eventType ∈ ALLOWED_EVENT_TYPES then .ok ()
  else .error .badRequest

def validateInference (req : IngestInferenceRequest) : Except StatusCode Unit :=
  validateFields "inference.completed"
    [req.tenantId, req.modelName, req.providerType, req.finishReason, req.status]

def validateAudit (req : IngestAuditRequest) : Except StatusCode Unit :=
  validateFields "audit.action"
    [req.accountName, req.action, req.resourceType, req.resourceId, req.resourceName]

/-! ## Log records -/

abbrev Attributes := List (String × Json)

def stringValue (s : String) : Json := .obj [("stringValue", .str s)]

def intValue (n : ℕ) : Json := .obj [("intValue", .str n.repr)]

/-- The arguments of `emit`. -/
structure Emission where
  body : String
  eventTime : ℤ
  attributes : Attributes

def inferenceAttributes (req : IngestInferenceRequest) : Attributes :=
  [("event.name", stringValue "inference.completed"),
    ("request_id", stringValue (EventId.text req.requestId)),
    ("tenant_id", stringValue req.tenantId),
    ("model_name", stringValue req.modelName),
    ("provider_type", stringValue req.providerType),
    ("prompt_tokens", intValue req.promptTokens.toNat),
    ("completion_tokens", intValue req.completionTokens.toNat),
    ("latency_ms", intValue req.latencyMs.toNat),
    ("finish_reason", stringValue req.finishReason),
    ("status", stringValue req.status)] ++
  (req.apiKeyId.map fun id => ("api_key_id", stringValue (EventId.text id))).toList ++
  (req.errorMsg.map fun msg => ("error_msg", stringValue msg)).toList

def auditAttributes (req : IngestAuditRequest) : Attributes :=
  [("event.name", stringValue "audit.action"),
    ("account_id", stringValue (EventId.text req.accountId)),
    ("account_name", stringValue req.accountName),
    ("action", stringValue req.action),
    ("resource_type", stringValue req.resourceType),
    ("resource_id", stringValue req.resourceId),
    ("resource_name", stringValue req.resourceName),
    ("ip_address", stringValue (req.ipAddress.getD "")),
    ("details", stringValue (req.details.getD ""))]

def mcpToolCallAttributes (req : IngestMcpToolCallRequest) : Attributes :=
  [("event.name", stringValue "mcp.tool_call"),
    ("request_id", stringValue (EventId.text req.requestId)),
    ("tenant_id", stringValue req.tenantId),
    ("server_id", stringValue (EventId.text req.serverId)),
    ("server_slug", stringValue req.serverSlug),
    ("tool_name", stringValue req.toolName),
    ("namespaced_name", stringValue req.namespacedName),
    ("outcome", stringValue req.outcome),
    ("cache_hit", intValue req.cacheHit.toNat),
    ("latency_ms", intValue req.latencyMs.toNat),
    ("result_bytes", intValue req.resultBytes.toNat),
    ("cap_charged", intValue req.capCharged.toNat),
    ("loop_round", intValue req.loopRound.toNat)] ++
  (req.apiKeyId.map fun id => ("api_key_id", stringValue (EventId.text id))).toList

def ingestInference (req : IngestInferenceRequest) : Except StatusCode Emission := do
  validateInference req
  return ⟨"inference.completed", req.eventTime, inferenceAttributes req⟩

def ingestAudit (req : IngestAuditRequest) : Except StatusCode Emission := do
  validateAudit req
  return ⟨"audit.action", req.eventTime, auditAttributes req⟩

def ingestMcpToolCall (req : IngestMcpToolCallRequest) : Except StatusCode Emission :=
  return ⟨"mcp.tool_call", req.eventTime, mcpToolCallAttributes req⟩

/-! ## Sending -/

/-- `DateTime::timestamp_nanos_opt`: the time if it fits a signed 64-bit number. -/
def timestampNanosOpt (t : ℤ) : Option ℤ := if -2 ^ 63 ≤ t ∧ t < 2 ^ 63 then some t else none

def timeNs (t : ℤ) : String := ((timestampNanosOpt t).map toString).getD "0"

def attributeItem (e : String × Json) : Json := .obj [("key", .str e.1), ("value", e.2)]

def logRecord (em : Emission) (observedNs : String) : Json :=
  .obj [("timeUnixNano", .str (timeNs em.eventTime)),
    ("observedTimeUnixNano", .str observedNs),
    ("severityNumber", .num "9"),
    ("severityText", .str "INFO"),
    ("body", stringValue em.body),
    ("attributes", .arr (em.attributes.map attributeItem))]

def resourceLog (record : Json) : Json :=
  .obj [("resource", .obj [("attributes", .arr [attributeItem
      ("service.name", stringValue "veronex-analytics")])]),
    ("scopeLogs", .arr [.obj
      [("scope", .obj [("name", .str "veronex-analytics")]), ("logRecords", .arr [record])]])]

/-- The payload of `emit`; the collector passes it on. -/
def emit (em : Emission) (observedNs : String) : Json :=
  .obj [("resourceLogs", .arr [resourceLog (logRecord em observedNs)])]

end Veronex.Telemetry
