import Veronex.Telemetry.Columns

/-! # Events in their tables

An event that `veronex-analytics` accepts, sent as a log record and parsed by `veronex-consumer`.
`Lands` says that it becomes one row, whose columns are the fields of the event.
-/
namespace Veronex.Telemetry
set_option autoImplicit false
open FixedDigits Agent

inductive Event
  | inference (req : IngestInferenceRequest)
  | audit (req : IngestAuditRequest)
  | mcpToolCall (req : IngestMcpToolCallRequest)

namespace Event

def eventTime : Event → ℤ
  | inference req => req.eventTime
  | audit req => req.eventTime
  | mcpToolCall req => req.eventTime

def ingest : Event → Except StatusCode Emission
  | inference req => ingestInference req
  | audit req => ingestAudit req
  | mcpToolCall req => ingestMcpToolCall req

def table : Event → EventTable
  | inference _ => .inferenceLogs
  | audit _ => .auditEvents
  | mcpToolCall _ => .mcpToolCalls

def timeCell (t : ℤ) : Cell := .time (t / 1000000).toNat

/-- An id that is absent is the nil UUID in a column. -/
def idCell (id : Option EventId) : Cell := .uuid (id.getD 0)

/-- The fields of the event, as its table has them. -/
def cells : Event → List (String × Cell)
  | inference req =>
    [("event_time", timeCell req.eventTime), ("api_key_id", idCell req.apiKeyId),
      ("tenant_id", .text req.tenantId), ("request_id", .uuid req.requestId),
      ("model_name", .text req.modelName), ("prompt_tokens", .number req.promptTokens.toNat),
      ("completion_tokens", .number req.completionTokens.toNat),
      ("latency_ms", .number req.latencyMs.toNat), ("finish_reason", .text req.finishReason),
      ("status", .text req.status)]
  | audit req =>
    [("event_time", timeCell req.eventTime), ("account_id", .uuid req.accountId),
      ("account_name", .text req.accountName), ("action", .text req.action),
      ("resource_type", .text req.resourceType), ("resource_id", .text req.resourceId),
      ("resource_name", .text req.resourceName), ("ip_address", .text (req.ipAddress.getD "")),
      ("details", .text (req.details.getD ""))]
  | mcpToolCall req =>
    [("event_time", timeCell req.eventTime), ("request_id", .uuid req.requestId),
      ("api_key_id", idCell req.apiKeyId), ("tenant_id", .text req.tenantId),
      ("server_id", .uuid req.serverId), ("server_slug", .text req.serverSlug),
      ("tool_name", .text req.toolName), ("namespaced_name", .text req.namespacedName),
      ("outcome", .text req.outcome), ("cache_hit", .number req.cacheHit.toNat),
      ("latency_ms", .number req.latencyMs.toNat), ("result_bytes", .number req.resultBytes.toNat),
      ("cap_charged", .number req.capCharged.toNat), ("loop_round", .number req.loopRound.toNat)]

/-- The message of the event gives one row, in the table of the event, with its fields. -/
def Lands (floats : Floats) (observedNs : String) (em : Emission) (e : Event) : Prop :=
  ∃ row, (∀ table, (Logs.rowsOf floats (emit em observedNs)).eventRows table =
      if table = e.table then [row] else []) ∧
    readRow e.table row = some e.cells

/-- An inference event has the id of its key. -/
def HasKey : Event → Prop
  | inference req => req.apiKeyId.isSome
  | audit _ => True
  | mcpToolCall _ => True

end Event

/-! ## The record of an emission -/

/-- The attributes as the consumer reads them. -/
def attrMap (floats : Floats) (attrs : Attributes) : AttrMap :=
  .ofList (attrs.map fun e => (e.1, anyValueToString floats e.2))

section Record
variable (floats : Floats) (observedNs : String) (em : Emission)

theorem attrsToMap_items (attrs : Attributes) :
    attrsToMap floats (some (.arr (attrs.map attributeItem))) = attrMap floats attrs := by
  have hitem : ∀ e, keyValue floats (attributeItem e) = some (e.1, anyValueToString floats e.2) := by
    intro e
    simp [keyValue, attributeItem, Json.get_obj_cons, Json.asStr]
  have hitems : (attrs.map attributeItem).filterMap (keyValue floats) =
      attrs.map fun e => (e.1, anyValueToString floats e.2) := by
    rw [List.filterMap_map, ← List.filterMap_eq_map]
    exact List.filterMap_congr fun e _ => hitem e
  rw [attrMap, ← hitems]
  rfl

/-- The one record of the payload. -/
theorem rowsOf_emit : Logs.rowsOf floats (emit em observedNs) =
    recordRows floats (resourceAttrs floats (resourceLog (logRecord em observedNs)))
      (logRecord em observedNs) := by
  have hrecords : itemsOf (emit em observedNs) "resourceLogs" =
      [resourceLog (logRecord em observedNs)] := by
    simp [itemsOf, emit, Json.get_obj_cons, Json.asArray]
  rw [Logs.rowsOf, hrecords]
  simp [itemsOf, resourceLog, Json.get_obj_cons, Json.asArray]

theorem strOr_timeUnixNano :
    strOr (logRecord em observedNs) "timeUnixNano" "0" = timeNs em.eventTime := by
  simp [strOr, logRecord, Json.get_obj_cons, Json.asStr]

theorem attrs_logRecord : attrsToMap floats ((logRecord em observedNs).get "attributes") =
    attrMap floats em.attributes := by
  rw [← attrsToMap_items]
  simp [logRecord, Json.get_obj_cons]

end Record

/-! ## Reading the attributes back -/

section Attributes
variable {floats : Floats} {attrs : Attributes} {key s : String} {n bits : ℕ}

theorem lookup_of_mem {α β : Type} [BEq α] [LawfulBEq α] {l : List (α × β)} {k : α} {v : β}
    (hnodup : (l.map Prod.fst).Nodup) (h : (k, v) ∈ l) : l.lookup k = some v := by
  obtain ⟨before, after, rfl⟩ := List.append_of_mem h
  refine List.lookup_eq_some_iff.mpr ⟨before, after, rfl, fun p hp => bne_iff_ne.mpr ?_⟩
  rw [List.map_append, List.map_cons, List.nodup_append] at hnodup
  exact fun heq => hnodup.2.2 p.1 (List.mem_map_of_mem hp) k (List.mem_cons_self ..) heq.symm

theorem lookup_attrMap (hkeys : (attrs.map Prod.fst).Nodup) (key : String) :
    (attrMap floats attrs).lookup key = (attrs.lookup key).map (anyValueToString floats) := by
  rw [attrMap, AttrMap.lookup_ofList]
  cases hlookup : attrs.lookup key with
  | none =>
    rw [Option.map_none, List.lookup_eq_none_iff]
    intro e he
    rw [List.mem_reverse] at he
    obtain ⟨a, ha, rfl⟩ := List.mem_map.mp he
    exact List.lookup_eq_none_iff.mp hlookup a ha
  | some v =>
    obtain ⟨before, after, hsplit, -⟩ := List.lookup_eq_some_iff.mp hlookup
    have hmem : (key, v) ∈ attrs := by
      rw [hsplit]
      exact List.mem_append_right _ (List.mem_cons_self ..)
    refine lookup_of_mem ?_ (List.mem_reverse.mpr (List.mem_map.mpr ⟨(key, v), hmem, rfl⟩))
    rw [List.map_reverse, List.nodup_reverse, List.map_map]
    exact hkeys

@[simp] theorem anyValueToString_stringValue :
    anyValueToString floats (stringValue s) = s := by
  simp [anyValueToString, stringValue, Json.get_obj_cons, Json.asStr]

@[simp] theorem anyValueToString_intValue : anyValueToString floats (intValue n) = n.repr := by
  simp [anyValueToString, intValue, Json.get_obj_cons, Json.get_obj_nil, Json.asStr]

theorem parseUnsigned_toDigits (h : n < 2 ^ bits) :
    parseUnsigned bits (Nat.toDigits 10 n) = some n := by
  rw [← Nat.toList_repr, parseUnsigned_repr h]

theorem text_of_lookup (hkeys : (attrs.map Prod.fst).Nodup)
    (h : attrs.lookup key = some (stringValue s)) : (attrMap floats attrs).text key = s := by
  rw [AttrMap.text, lookup_attrMap hkeys, h, Option.map_some, anyValueToString_stringValue,
    Option.getD_some]

end Attributes

/-! ## Rows of the three events -/

section Rows
variable {floats : Floats} {ms : ℕ}

theorem keys_inference (req : IngestInferenceRequest) :
    ((inferenceAttributes req).map Prod.fst).Nodup := by
  cases hkey : req.apiKeyId <;> cases hmsg : req.errorMsg <;>
    simp [inferenceAttributes, hkey, hmsg]

theorem keys_audit (req : IngestAuditRequest) : ((auditAttributes req).map Prod.fst).Nodup := by
  simp [auditAttributes]

theorem keys_mcpToolCall (req : IngestMcpToolCallRequest) :
    ((mcpToolCallAttributes req).map Prod.fst).Nodup := by
  cases hkey : req.apiKeyId <;> simp [mcpToolCallAttributes, hkey]

theorem inferenceRow_eq (req : IngestInferenceRequest) :
    inferenceRow ms (attrMap floats (inferenceAttributes req)) =
      .obj [("event_time", .ofNat ms),
        ("api_key_id", .str ((req.apiKeyId.map EventId.text).getD "")),
        ("tenant_id", .str req.tenantId),
        ("request_id", .str req.requestId.text),
        ("model_name", .str req.modelName),
        ("prompt_tokens", .ofNat req.promptTokens.toNat),
        ("completion_tokens", .ofNat req.completionTokens.toNat),
        ("latency_ms", .ofNat req.latencyMs.toNat),
        ("finish_reason", .str req.finishReason),
        ("status", .str req.status)] := by
  have hkeys := keys_inference req
  have hp := req.promptTokens.toNat_lt
  have hc := req.completionTokens.toNat_lt
  have hl := req.latencyMs.toNat_lt
  simp only [inferenceRow, AttrMap.text, AttrMap.number, lookup_attrMap hkeys]
  cases hkey : req.apiKeyId <;> cases hmsg : req.errorMsg <;>
    simp [inferenceAttributes, hkey, hmsg, List.lookup_cons, parseUnsigned_toDigits, hp, hc, hl]

theorem auditRow_eq (req : IngestAuditRequest) :
    auditRow ms (attrMap floats (auditAttributes req)) =
      .obj [("event_time", .ofNat ms),
        ("account_id", .str req.accountId.text),
        ("account_name", .str req.accountName),
        ("action", .str req.action),
        ("resource_type", .str req.resourceType),
        ("resource_id", .str req.resourceId),
        ("resource_name", .str req.resourceName),
        ("ip_address", .str (req.ipAddress.getD "")),
        ("details", .str (req.details.getD ""))] := by
  simp only [auditRow, AttrMap.text, lookup_attrMap (keys_audit req)]
  simp [auditAttributes, List.lookup_cons]

theorem mcpToolCallRow_eq (req : IngestMcpToolCallRequest) :
    mcpToolCallRow ms (attrMap floats (mcpToolCallAttributes req)) =
      .obj [("event_time", .ofNat ms),
        ("request_id", .str req.requestId.text),
        ("api_key_id", .str (req.apiKeyId.getD 0).text),
        ("tenant_id", .str req.tenantId),
        ("server_id", .str req.serverId.text),
        ("server_slug", .str req.serverSlug),
        ("tool_name", .str req.toolName),
        ("namespaced_name", .str req.namespacedName),
        ("outcome", .str req.outcome),
        ("cache_hit", .ofNat req.cacheHit.toNat),
        ("latency_ms", .ofNat req.latencyMs.toNat),
        ("result_bytes", .ofNat req.resultBytes.toNat),
        ("cap_charged", .ofNat req.capCharged.toNat),
        ("loop_round", .ofNat req.loopRound.toNat)] := by
  have hhit : req.cacheHit.toNat < 2 ^ 8 := (Bool.toNat_lt _).trans (by decide)
  have hlatency := req.latencyMs.toNat_lt
  have hbytes := req.resultBytes.toNat_lt
  have hcap := req.capCharged.toNat_lt
  have hround := req.loopRound.toNat_lt
  have hnil : EventId.text 0#128 = "00000000-0000-0000-0000-000000000000" := by decide +kernel
  simp only [mcpToolCallRow, AttrMap.text, AttrMap.number, lookup_attrMap (keys_mcpToolCall req)]
  cases hkey : req.apiKeyId <;>
    simp [mcpToolCallAttributes, hkey, List.lookup_cons, parseUnsigned_toDigits,
      parseUnsigned_toDigits hhit, hlatency, hbytes, hcap, hround, hnil]

end Rows

/-! ## The whole way -/

namespace Event
variable {floats : Floats} {observedNs : String} {em : Emission}

/-- The time in milliseconds that the consumer reads. -/
def sentMs (t : ℤ) : ℕ := nanoStrToMs (timeNs t)

/-- The row of the event. -/
def row (floats : Floats) : Event → Json
  | inference req => inferenceRow (sentMs req.eventTime) (attrMap floats (inferenceAttributes req))
  | audit req => auditRow (sentMs req.eventTime) (attrMap floats (auditAttributes req))
  | mcpToolCall req =>
    mcpToolCallRow (sentMs req.eventTime) (attrMap floats (mcpToolCallAttributes req))

/-- An event that is accepted is sent as it is. -/
theorem ingest_cases {e : Event} (h : e.ingest = .ok em) :
    em.eventTime = e.eventTime ∧ em.attributes = match e with
      | inference req => inferenceAttributes req
      | audit req => auditAttributes req
      | mcpToolCall req => mcpToolCallAttributes req := by
  cases e with
  | inference req =>
    rw [ingest, ingestInference] at h
    cases hvalid : validateInference req with
    | error code => simp [hvalid, bind, Except.bind] at h
    | ok u =>
      obtain rfl : _ = em := by simpa [hvalid, bind, Except.bind, pure, Except.pure] using h
      exact ⟨rfl, rfl⟩
  | audit req =>
    rw [ingest, ingestAudit] at h
    cases hvalid : validateAudit req with
    | error code => simp [hvalid, bind, Except.bind] at h
    | ok u =>
      obtain rfl : _ = em := by simpa [hvalid, bind, Except.bind, pure, Except.pure] using h
      exact ⟨rfl, rfl⟩
  | mcpToolCall req =>
    obtain rfl : _ = em := by simpa [ingest, ingestMcpToolCall, pure, Except.pure] using h
    exact ⟨rfl, rfl⟩

theorem eventRows_emit {e : Event} (h : e.ingest = .ok em) (table : EventTable) :
    (Logs.rowsOf floats (emit em observedNs)).eventRows table =
      if table = e.table then [e.row floats] else [] := by
  obtain ⟨htime, hattrs⟩ := ingest_cases h
  rw [rowsOf_emit, recordRows, strOr_timeUnixNano, attrs_logRecord, htime, hattrs]
  cases e with
  | inference req =>
    have hname : (attrMap floats (inferenceAttributes req)).text "event.name" =
        "inference.completed" :=
      text_of_lookup (keys_inference req) (by simp [inferenceAttributes])
    cases table <;> simp [hname, LogRows.eventRows, Event.table, row, sentMs, eventTime]
  | audit req =>
    have hname : (attrMap floats (auditAttributes req)).text "event.name" = "audit.action" :=
      text_of_lookup (keys_audit req) (by simp [auditAttributes])
    cases table <;> simp [hname, LogRows.eventRows, Event.table, row, sentMs, eventTime]
  | mcpToolCall req =>
    have hname : (attrMap floats (mcpToolCallAttributes req)).text "event.name" =
        "mcp.tool_call" :=
      text_of_lookup (keys_mcpToolCall req) (by simp [mcpToolCallAttributes])
    cases table <;> simp [hname, LogRows.eventRows, Event.table, row, sentMs, eventTime]

/-- Whether an event lands is decided by its row. -/
theorem lands_iff_readRow {e : Event} (h : e.ingest = .ok em) :
    Lands floats observedNs em e ↔ readRow e.table (e.row floats) = some e.cells := by
  constructor
  · rintro ⟨row, hrows, hread⟩
    have hrow := (hrows e.table).symm.trans (eventRows_emit h e.table)
    rw [if_pos rfl, if_pos rfl] at hrow
    rw [← (List.cons.inj hrow).1]
    exact hread
  · exact fun hread => ⟨e.row floats, eventRows_emit h, hread⟩

/-- From 1970 on, the time is read to the millisecond as long as it fits. -/
theorem time_sentMs_eq_iff {t : ℤ} (h : 0 ≤ t) : Cell.time (sentMs t) = timeCell t ↔ t < 2 ^ 63 := by
  obtain ⟨n, rfl⟩ := Int.eq_ofNat_of_zero_le h
  rw [timeCell, Cell.time.injEq]
  by_cases hfits : (n : ℤ) < 2 ^ 63
  · have hn : n < 2 ^ 64 := by omega
    have hrange : -2 ^ 63 ≤ (n : ℤ) ∧ (n : ℤ) < 2 ^ 63 := ⟨by omega, hfits⟩
    have htext : timeNs n = n.repr := by
      rw [timeNs, timestampNanosOpt, if_pos hrange]
      rfl
    rw [sentMs, htext, nanoStrToMs_repr hn]
    simp only [hfits, iff_true]
    omega
  · have hrange : ¬ (-2 ^ 63 ≤ (n : ℤ) ∧ (n : ℤ) < 2 ^ 63) := fun h => hfits h.2
    have hzero : sentMs n = 0 := by
      rw [sentMs, timeNs, timestampNanosOpt, if_neg hrange]
      decide
    rw [hzero]
    constructor
    · intro heq
      omega
    · exact fun hlt => absurd hlt hfits

theorem sentMs_lt (t : ℤ) : sentMs t < 2 ^ 64 := by
  rw [sentMs, nanoStrToMs]
  cases hparse : parseU64 (timeNs t).toList with
  | none => simp
  | some n =>
    have hn : n < 2 ^ 64 := by
      unfold parseU64 parseUnsigned at hparse
      simpa using (Option.filter_eq_some_iff.mp hparse).2
    simp only [Option.getD_some]
    omega

/-- A row is taken with the fields of its event if the time is the event's and no id is empty. -/
theorem readRow_iff (e : Event) :
    readRow e.table (e.row floats) = some e.cells ↔
      Cell.time (sentMs e.eventTime) = timeCell e.eventTime ∧ e.HasKey := by
  have hms := fun t => read_dateTime (sentMs_lt t)
  rw [readRow_eq_some_iff]
  cases e with
  | inference req =>
    have hempty : ColumnType.uuid.read (.str "") = none := by decide +kernel
    have hp := read_uint req.promptTokens.toNat_lt
    have hc := read_uint req.completionTokens.toNat_lt
    have hl := read_uint req.latencyMs.toNat_lt
    rw [row, inferenceRow_eq]
    cases hkey : req.apiKeyId <;>
      simp [table, schema, cells, Json.get_obj_cons, idCell, eventTime, HasKey, hkey, hempty, hms,
        hp, hc, hl]
  | audit req =>
    rw [row, auditRow_eq]
    simp [table, schema, cells, Json.get_obj_cons, eventTime, HasKey, hms]
  | mcpToolCall req =>
    have hh : (ColumnType.uint 8).read (.ofNat req.cacheHit.toNat) = _ :=
      read_uint ((Bool.toNat_lt req.cacheHit).trans (by decide))
    have hl := read_uint req.latencyMs.toNat_lt
    have hb := read_uint req.resultBytes.toNat_lt
    have hc := read_uint req.capCharged.toNat_lt
    have hr := read_uint req.loopRound.toNat_lt
    rw [row, mcpToolCallRow_eq]
    simp [table, schema, cells, Json.get_obj_cons, idCell, eventTime, HasKey, hms, hh, hl, hb, hc,
      hr]

/-- From 1970 on, an event that is accepted lands exactly if its time fits signed 64-bit nanoseconds
and it is no inference event without a key. -/
theorem lands_iff {e : Event} (h : e.ingest = .ok em) (htime : 0 ≤ e.eventTime) :
    Lands floats observedNs em e ↔ e.eventTime < 2 ^ 63 ∧ e.HasKey := by
  rw [lands_iff_readRow h, readRow_iff, time_sentMs_eq_iff htime]

/-- A completion that no key paid for, in 2024. -/
def keyless : Event :=
  inference
    { eventTime := 1712345678123456789, requestId := 0x2a#128, apiKeyId := none, tenantId := "acme"
      modelName := "llama3.2", providerType := "ollama", promptTokens := 10, completionTokens := 20
      latencyMs := 150, finishReason := "stop", status := "success", errorMsg := none }

/-- A tool call that no key paid for. -/
def keylessCall : Event :=
  mcpToolCall
    { eventTime := 1712345678123456789, requestId := 0x2a#128, apiKeyId := none, tenantId := "acme"
      serverId := 7#128, serverSlug := "weather", toolName := "get_weather"
      namespacedName := "mcp_weather_get_weather", outcome := "success", cacheHit := true
      latencyMs := 42, resultBytes := 512, capCharged := 1, loopRound := 0 }

def floats₀ : Floats := ⟨id, id⟩

/-- The event without a key is accepted, and the empty text stands for its key. -/
theorem keyless_lost : ∃ em, keyless.ingest = .ok em ∧ 0 ≤ keyless.eventTime ∧
    keyless.eventTime < 2 ^ 63 ∧ ¬ Lands floats₀ "1712345678200000000" em keyless := by
  have hin : ∃ em, keyless.ingest = .ok em := ⟨_, rfl⟩
  obtain ⟨em, hem⟩ := hin
  refine ⟨em, hem, by decide, by decide, fun hlands => ?_⟩
  have hread := (readRow_iff keyless).mp ((lands_iff_readRow hem).mp hlands)
  exact Bool.false_ne_true hread.2

theorem keylessCall_lands : ∃ em, keylessCall.ingest = .ok em ∧
    Lands floats₀ "1712345678200000000" em keylessCall :=
  ⟨_, rfl, (lands_iff rfl (by decide)).mpr ⟨by decide, trivial⟩⟩

end Event

end Veronex.Telemetry
