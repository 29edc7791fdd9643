import Veronex.Domain.Values

/-! # Forced JSON

`infrastructure/outbound/mcp/forced_json.rs`: the schemas a round of the tool loop is decoded under,
and the parser of what the model answers. `Conforms` is what a schema admits, by the keywords these
schemas use; every other keyword of a tool's own schema admits everything.

`parse_terminal` and `parse_toolOnly`: what is parsed from an answer that conforms.
-/
namespace Veronex
set_option autoImplicit false

/-! ## JSON values -/

namespace Json

/-- `Value::get`. -/
def get (v : Json) (key : String) : Option Json :=
  match v with
  | obj fields => fields.lookup key
  | _ => none

def asStr : Json → Option String
  | str s => some s
  | _ => none

def isObject : Json → Bool
  | obj _ => true
  | _ => false

/-- The value of the keyword `type`. -/
def typeName : Json → String
  | null => "null"
  | bool _ => "boolean"
  | num _ => "number"
  | str _ => "string"
  | arr _ => "array"
  | obj _ => "object"

end Json

/-! ## JSON Schema -/

/-- The number of a text of decimal digits. -/
def decimal (text : String) : Option ℕ :=
  if text.toList.all Char.isDigit then
    some (text.toList.foldl (fun n c => 10 * n + (c.toNat - '0'.toNat)) 0)
  else none

/-- The values a schema admits. `branch` is the alternative of `oneOf` they take. -/
inductive Conforms : Json → Json → Prop
  | intro {schema value : Json} (branch : Json)
      (htype : ∀ name, schema.get "type" = some (.str name) → value.typeName = name)
      (hconst : ∀ c, schema.get "const" = some c → value = c)
      (hminLength : ∀ text n s, schema.get "minLength" = some (.num text) →
        decimal text = some n → value = .str s → n ≤ s.length)
      (hrequired : ∀ keys key, schema.get "required" = some (.arr keys) → .str key ∈ keys →
        (value.get key).isSome)
      (hproperties : ∀ props key sub v, schema.get "properties" = some (.obj props) →
        (key, sub) ∈ props → value.get key = some v → Conforms sub v)
      (hadditional : ∀ props fields, schema.get "additionalProperties" = some (.bool false) →
        schema.get "properties" = some (.obj props) → value = .obj fields →
        ∀ field ∈ fields, ∃ p ∈ props, p.1 = field.1)
      (hmem : ∀ branches, schema.get "oneOf" = some (.arr branches) → branch ∈ branches)
      (hbranch : ∀ branches, schema.get "oneOf" = some (.arr branches) → Conforms branch value) :
      Conforms schema value

namespace Conforms
variable {schema value : Json}

theorem const (h : Conforms schema value) {c : Json} (hc : schema.get "const" = some c) :
    value = c := by
  cases h with
  | intro branch htype hconst => exact hconst c hc

theorem required_of (h : Conforms schema value) {keys : List Json} {key : String}
    (hkeys : schema.get "required" = some (.arr keys)) (hkey : .str key ∈ keys) :
    ∃ v, value.get key = some v := by
  cases h with
  | intro branch htype hconst hmin hrequired =>
    exact Option.isSome_iff_exists.mp (hrequired keys key hkeys hkey)

theorem property (h : Conforms schema value) {props : List (String × Json)} {key : String}
    {sub v : Json} (hprops : schema.get "properties" = some (.obj props))
    (hmem : (key, sub) ∈ props) (hv : value.get key = some v) : Conforms sub v := by
  cases h with
  | intro branch htype hconst hmin hrequired hproperties =>
    exact hproperties props key sub v hprops hmem hv

theorem oneOf_branch (h : Conforms schema value) {branches : List Json}
    (hbranches : schema.get "oneOf" = some (.arr branches)) :
    ∃ branch ∈ branches, Conforms branch value := by
  cases h with
  | intro branch htype hconst hmin hrequired hproperties hadditional hmem hbranch =>
    exact ⟨branch, hmem branches hbranches, hbranch branches hbranches⟩

theorem str_of_type (h : Conforms schema value) (htype : schema.get "type" = some (.str "string")) :
    ∃ s, value = .str s := by
  cases h with
  | intro branch hname =>
    have hvalue := hname _ htype
    cases value with
    | str s => exact ⟨s, rfl⟩
    | _ => simp [Json.typeName] at hvalue

theorem minLength_le {s : String} (h : Conforms schema (.str s)) {text : String} {n : ℕ}
    (htext : schema.get "minLength" = some (.num text)) (hn : decimal text = some n) :
    n ≤ s.length := by
  cases h with
  | intro branch htype hconst hmin => exact hmin text n s htext hn rfl

end Conforms

/-! ## The schemas -/

/-- The text of the system prompt, without the catalogue. -/
def FORCED_JSON_SYSTEM_PROMPT : String :=
  "You are an agent with access to tools. The available tools include " ++
  "real-time web search, current weather, and current datetime — they DO have " ++
  "access to live, up-to-the-minute data. \n" ++
  "- For ANY question about current/recent/today's information (prices, news, " ++
  "weather, time, market data, events), call a tool first. Do NOT claim " ++
  "\"I don't have access to real-time data\" or \"web search is disabled\" — " ++
  "those statements are FALSE because you have these tools.\n" ++
  "- On each turn output exactly one JSON object — either a tool call " ++
  "(`action=\"tool\"`), a final answer (`action=\"final\"`), or a refusal " ++
  "(`action=\"refuse\"`).\n" ++
  "- Choose `final` only after you have gathered enough information from tools " ++
  "(or for trivial questions that genuinely need no lookup, e.g. arithmetic). " ++
  "The `final.answer` MUST cite or use the tool results that have been " ++
  "collected — do not produce an answer that contradicts or ignores them.\n" ++
  "- Choose `refuse` ONLY when none of the available tools can answer the " ++
  "question (e.g. user asks about their personal history with no " ++
  "personal-data tool available). Provide a concise reason naming what " ++
  "data would have been needed."

def REFUSAL_PREFIX : String := "REFUSED: "

/-- An object with these properties, all of them required, and no others. -/
def closedObject (props : List (String × Json)) : Json :=
  .obj [("type", .str "object"), ("properties", .obj props),
    ("required", .arr (props.map fun p => .str p.1)), ("additionalProperties", .bool false)]

def constStr (s : String) : Json := .obj [("const", .str s)]

def finalBranch : Json :=
  closedObject [("action", constStr "final"), ("answer", .obj [("type", .str "string")])]

def refuseBranch : Json :=
  closedObject [("action", constStr "refuse"),
    ("reason", .obj [("type", .str "string"), ("minLength", .num "8")])]

/-- The name of a tool definition that has one. -/
def toolName (f : Json) : Option String :=
  ((f.get "name").bind Json.asStr).filter (· ≠ "")

/-- The branch of a tool definition. -/
def toolBranch (t : Json) : Option Json :=
  (t.get "function").bind fun f => (toolName f).map fun name =>
    let anyObject : Json := .obj [("type", .str "object")]
    let argsSchema := (f.get "parameters").getD anyObject
    closedObject [("action", constStr "tool"), ("tool", constStr name),
      ("args", if argsSchema.isObject then argsSchema else anyObject)]

def buildForcedJsonSchema (tools : List Json) (allowFinal : Bool) : Option Json :=
  if tools.isEmpty then none
  else
    let branches := tools.filterMap toolBranch
    if branches.isEmpty then none
    else
      some (.obj [("oneOf",
        .arr (if allowFinal then branches ++ [finalBranch, refuseBranch] else branches))])

def allowFinalForRound (priorToolCalls : ℕ) : Bool := decide (0 < priorToolCalls)

def buildTerminalSchema : Json := .obj [("oneOf", .arr [finalBranch, refuseBranch])]

def schemaToResponseFormat (schema : Json) : Json :=
  .obj [("type", .str "json_schema"),
    ("json_schema", .obj [("name", .str "veronex_mcp_action"), ("schema", schema)])]

/-- The catalogue line of a tool definition. -/
def catalogueLine (t : Json) : Option String :=
  (t.get "function").bind fun f => (toolName f).map fun name =>
    let desc := ((f.get "description").bind Json.asStr).getD "(no description)"
    s!"- {name}: {desc}\n"

def renderToolCatalogue (tools : List Json) : String :=
  String.join (tools.filterMap catalogueLine)

def buildForcedJsonSystemPrompt (tools : List Json) : Option String :=
  let cat := renderToolCatalogue tools
  if cat = "" then none else some s!"{FORCED_JSON_SYSTEM_PROMPT}\n\nAvailable tools:\n{cat}"

/-! ## The parser -/

inductive ForcedAction
  | tool (name : String) (args : Json)
  | final (answer : String)
  | refuse (reason : String)

/-- The action of a JSON value whose text is `trimmed`. -/
def forcedActionOf (trimmed : String) (v : Json) : ForcedAction :=
  let field key := ((v.get key).bind Json.asStr).getD ""
  match field "action" with
  | "tool" =>
    let args := (v.get "args").getD (.obj [])
    if field "tool" = "" then .final trimmed else .tool (field "tool") args
  | "final" => .final (field "answer")
  | "refuse" => if field "reason" = "" then .final trimmed else .refuse (field "reason")
  | _ => .final trimmed

/-- `fromStr` is `serde_json::from_str`. -/
def parseForcedAction (fromStr : String → Option Json) (text : String) : ForcedAction :=
  let trimmed := String.ofList (trim text.toList)
  match fromStr trimmed with
  | none => .final trimmed
  | some v => forcedActionOf trimmed v

/-! ## What conforms -/

theorem conforms_oneOf {branches : List Json} {branch v : Json} (hmem : branch ∈ branches)
    (h : Conforms branch v) : Conforms (.obj [("oneOf", .arr branches)]) v := by
  refine .intro branch ?_ ?_ ?_ ?_ ?_ ?_ ?_ ?_
  · exact fun name hkey => by cases hkey
  · exact fun c hkey => by cases hkey
  · exact fun text n s hkey => by cases hkey
  · exact fun keys key hkey => by cases hkey
  · exact fun props key sub v hkey => by cases hkey
  · exact fun props fields hkey => by cases hkey
  · intro branches' hkey
    obtain rfl : branches = branches' := by simpa [Json.get] using hkey
    exact hmem
  · exact fun _ _ => h

theorem conforms_constStr (s : String) : Conforms (constStr s) (.str s) := by
  refine .intro .null ?_ ?_ ?_ ?_ ?_ ?_ ?_ ?_
  · exact fun name hkey => by cases hkey
  · intro c hkey
    exact Option.some.inj hkey
  · exact fun text n s hkey => by cases hkey
  · exact fun keys key hkey => by cases hkey
  · exact fun props key sub v hkey => by cases hkey
  · exact fun props fields hkey => by cases hkey
  · exact fun branches hkey => by cases hkey
  · exact fun branches hkey => by cases hkey

/-- A schema of a type only. -/
theorem conforms_type (v : Json) : Conforms (.obj [("type", .str v.typeName)]) v := by
  refine .intro .null ?_ ?_ ?_ ?_ ?_ ?_ ?_ ?_
  · intro name hkey
    simpa [Json.get] using hkey
  · exact fun c hkey => by cases hkey
  · exact fun text n s hkey => by cases hkey
  · exact fun keys key hkey => by cases hkey
  · exact fun props key sub v hkey => by cases hkey
  · exact fun props fields hkey => by cases hkey
  · exact fun branches hkey => by cases hkey
  · exact fun branches hkey => by cases hkey

theorem conforms_closedObject {props fields : List (String × Json)}
    (hprops : ∀ p ∈ props, ∃ w, fields.lookup p.1 = some w ∧ Conforms p.2 w)
    (hfields : ∀ field ∈ fields, ∃ p ∈ props, p.1 = field.1) :
    Conforms (closedObject props) (.obj fields) := by
  refine .intro .null ?_ ?_ ?_ ?_ ?_ ?_ ?_ ?_
  · intro name hkey
    obtain rfl : "object" = name := by simpa [closedObject, Json.get] using hkey
    rfl
  · exact fun c hkey => by cases hkey
  · exact fun text n s hkey => by cases hkey
  · intro keys key hkey hmem
    obtain rfl : props.map (fun p => Json.str p.1) = keys := by
      simpa [closedObject, Json.get, List.lookup_cons] using hkey
    obtain ⟨p, hp, hname⟩ := List.mem_map.mp hmem
    obtain rfl : p.1 = key := Json.str.inj hname
    obtain ⟨w, hw, -⟩ := hprops p hp
    exact Option.isSome_iff_exists.mpr ⟨w, hw⟩
  · intro props' key sub v hkey hmem hv
    obtain rfl : props = props' := by simpa [closedObject, Json.get, List.lookup_cons] using hkey
    obtain ⟨w, hw, hconf⟩ := hprops (key, sub) hmem
    obtain rfl : w = v := Option.some.inj (hw.symm.trans hv)
    exact hconf
  · intro props' fields' _ hkey hvalue field hfield
    obtain rfl : props = props' := by simpa [closedObject, Json.get, List.lookup_cons] using hkey
    obtain rfl : fields = fields' := Json.obj.inj hvalue
    exact hfields field hfield
  · exact fun branches hkey => by cases hkey
  · exact fun branches hkey => by cases hkey

/-! ## What an answer parses to -/

section Answers
variable {fromStr : String → Option Json} {text : String} {v : Json}

/-- Where there is a system prompt there is a schema: a tool that has a catalogue line has a
branch. -/
theorem schema_of_systemPrompt {tools : List Json} {prompt : String}
    (h : buildForcedJsonSystemPrompt tools = some prompt) (allowFinal : Bool) :
    ∃ schema, buildForcedJsonSchema tools allowFinal = some schema := by
  have hbranches : tools.filterMap toolBranch ≠ [] := by
    intro hnone
    have hlines : tools.filterMap catalogueLine = [] := by
      rw [List.filterMap_eq_nil_iff] at hnone ⊢
      intro t ht
      have hbranch := hnone t ht
      simp only [toolBranch, catalogueLine, Option.bind_eq_none_iff, Option.map_eq_none_iff]
        at hbranch ⊢
      exact hbranch
    have hcat : renderToolCatalogue tools = "" := by rw [renderToolCatalogue, hlines]; rfl
    rw [buildForcedJsonSystemPrompt, hcat] at h
    cases h
  have htools : tools.isEmpty = false := by
    cases tools with
    | nil => exact absurd rfl hbranches
    | cons t tools => rfl
  have hnonempty : (tools.filterMap toolBranch).isEmpty = false := by
    simpa using hbranches
  unfold buildForcedJsonSchema
  rw [htools, if_neg (by decide)]
  dsimp only
  rw [hnonempty, if_neg (by decide)]
  exact ⟨_, rfl⟩

/-- Every property of a closed object is there and conforms. -/
theorem closedObject_field {props : List (String × Json)} (h : Conforms (closedObject props) v)
    {key : String} {sub : Json} (hmem : (key, sub) ∈ props) :
    ∃ w, v.get key = some w ∧ Conforms sub w := by
  have hkey : Json.str key ∈ props.map fun p => Json.str p.1 := List.mem_map.mpr ⟨_, hmem, rfl⟩
  obtain ⟨w, hw⟩ := h.required_of rfl hkey
  exact ⟨w, hw, h.property rfl hmem hw⟩

theorem closedObject_const {props : List (String × Json)} (h : Conforms (closedObject props) v)
    {key s : String} (hmem : (key, constStr s) ∈ props) :
    ((v.get key).bind Json.asStr).getD "" = s := by
  obtain ⟨w, hw, hconf⟩ := closedObject_field h hmem
  rw [hw, hconf.const rfl]
  rfl

theorem action_final (h : Conforms finalBranch v) (trimmed : String) :
    ∃ answer, forcedActionOf trimmed v = .final answer := by
  have haction : ((v.get "action").bind Json.asStr).getD "" = "final" :=
    closedObject_const h (by simp)
  refine ⟨((v.get "answer").bind Json.asStr).getD "", ?_⟩
  simp only [forcedActionOf, haction]

/-- A reason has at least eight characters, so it is not taken for a missing one. -/
theorem action_refuse (h : Conforms refuseBranch v) (trimmed : String) :
    ∃ reason, forcedActionOf trimmed v = .refuse reason := by
  have haction : ((v.get "action").bind Json.asStr).getD "" = "refuse" :=
    closedObject_const h (by simp)
  have hmem : ("reason", Json.obj [("type", .str "string"), ("minLength", .num "8")]) ∈
      [("action", constStr "refuse"),
        ("reason", .obj [("type", .str "string"), ("minLength", .num "8")])] := by simp
  obtain ⟨w, hw, hreason⟩ := closedObject_field h hmem
  obtain ⟨reason, rfl⟩ := hreason.str_of_type rfl
  have hlength : 8 ≤ reason.length := hreason.minLength_le rfl (by decide)
  have hne : reason ≠ "" := by
    rintro rfl
    simp at hlength
  refine ⟨reason, ?_⟩
  simp [forcedActionOf, haction, hw, Json.asStr, hne]

/-- The branch of a tool carries its name, which is not empty. -/
theorem toolBranch_eq {t branch : Json} (h : toolBranch t = some branch) :
    ∃ name args, name ≠ "" ∧ branch = closedObject
      [("action", constStr "tool"), ("tool", constStr name), ("args", args)] := by
  obtain ⟨f, -, hf⟩ := Option.bind_eq_some_iff.mp h
  obtain ⟨name, hname, rfl⟩ := Option.map_eq_some_iff.mp hf
  have hne : name ≠ "" := by
    have hfilter := (Option.filter_eq_some_iff.mp hname).2
    simpa using hfilter
  exact ⟨name, _, hne, rfl⟩

theorem action_tool {t branch : Json} (ht : toolBranch t = some branch) (h : Conforms branch v)
    (trimmed : String) : ∃ name args, forcedActionOf trimmed v = .tool name args := by
  obtain ⟨name, args, hne, rfl⟩ := toolBranch_eq ht
  have haction : ((v.get "action").bind Json.asStr).getD "" = "tool" :=
    closedObject_const h (by simp)
  have htool : ((v.get "tool").bind Json.asStr).getD "" = name := closedObject_const h (by simp)
  refine ⟨name, (v.get "args").getD (.obj []), ?_⟩
  simp only [forcedActionOf, haction, htool, if_neg hne]

/-- The schema of a round that may not end: nothing but the tools. -/
theorem parse_toolOnly {tools : List Json} {schema : Json}
    (hschema : buildForcedJsonSchema tools false = some schema)
    (hv : fromStr (String.ofList (trim text.toList)) = some v) (h : Conforms schema v) :
    ∃ name args, parseForcedAction fromStr text = .tool name args := by
  unfold buildForcedJsonSchema at hschema
  split at hschema
  · cases hschema
  · dsimp only at hschema
    split at hschema
    · cases hschema
    · obtain rfl := Option.some.inj hschema
      obtain ⟨branch, hbranch, hconf⟩ := h.oneOf_branch rfl
      obtain ⟨t, -, ht⟩ := List.mem_filterMap.mp hbranch
      obtain ⟨name, args, haction⟩ := action_tool ht hconf (String.ofList (trim text.toList))
      exact ⟨name, args, by simp only [parseForcedAction, hv, haction]⟩

/-- The schema of the last round: an answer or a refusal. -/
theorem parse_terminal (hv : fromStr (String.ofList (trim text.toList)) = some v)
    (h : Conforms buildTerminalSchema v) :
    (∃ answer, parseForcedAction fromStr text = .final answer) ∨
      ∃ reason, parseForcedAction fromStr text = .refuse reason := by
  obtain ⟨branch, hbranch, hconf⟩ := h.oneOf_branch rfl
  have hcases : branch = finalBranch ∨ branch = refuseBranch := by simpa using hbranch
  cases hcases with
  | inl hfinal =>
    obtain ⟨answer, haction⟩ := action_final (hfinal ▸ hconf) (String.ofList (trim text.toList))
    exact .inl ⟨answer, by simp only [parseForcedAction, hv, haction]⟩
  | inr hrefuse =>
    obtain ⟨reason, haction⟩ := action_refuse (hrefuse ▸ hconf) (String.ofList (trim text.toList))
    exact .inr ⟨reason, by simp only [parseForcedAction, hv, haction]⟩

end Answers

end Veronex
