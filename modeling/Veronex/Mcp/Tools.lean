import Veronex.Agent.Shard
import Veronex.Mcp.ForcedJson

/-! # Tools of the tool server

The trait of `veronex-mcp/src/tools/mod.rs` with `web_search.rs` and `analyze_image.rs`. What SearXNG
and the gateway answer is taken from outside.
-/
namespace Veronex.Mcp.Wire
set_option autoImplicit false

/-- `call` is what the tool answers at the time of the request. -/
structure Tool where
  spec : Json
  call : Json → Except String Json

/-- `spec["name"].as_str()` -/
def specName (spec : Json) : Option String := (spec.get "name").bind Json.asStr

def strOr (v : Json) (key missing : String) : String := ((v.get key).bind Json.asStr).getD missing

/-- `Value::as_u64` -/
def asU64 : Json → Option ℕ
  | .num text => (Agent.digits text.toList).filter fun n => n < 2 ^ 64
  | _ => none

theorem lookup_cons_eq (key key' : String) (v : Json) (rest : List (String × Json)) :
    List.lookup key ((key', v) :: rest) = if key = key' then some v else rest.lookup key := by
  by_cases hkey : key = key'
  · simp [hkey]
  · simp [hkey, List.lookup_cons, beq_false_of_ne hkey]

/-! ## Web search -/

namespace WebSearchTool

def MAX_RESULTS : ℕ := 5

/-- The body of the answer to a query, or the error of the request. -/
abbrev Search := String → Except String Json

def result (r : Json) : Json :=
  .obj [("title", .str (strOr r "title" "")), ("url", .str (strOr r "url" "")),
    ("snippet", .str (strOr r "content" "")), ("engine", .str (strOr r "engine" ""))]

def search (searxng : Search) (query : String) (count : ℕ) : Except String Json := do
  let body ← searxng query
  match body.get "results" with
  | some (.arr items) => .ok (.arr ((items.take count).map result))
  | _ => .ok (.arr [])

def spec : Json :=
  .obj [("name", .str "web_search"),
    ("description", .str
      "Search the web and return a list of relevant results with titles, URLs, and snippets."),
    ("inputSchema", .obj [("type", .str "object"),
      ("properties", .obj [
        ("query", .obj [("type", .str "string"), ("description", .str "The search query")]),
        ("count", .obj [("type", .str "integer"),
          ("description", .str "Number of results to return (1-10, default 5)"),
          ("minimum", .num "1"), ("maximum", .num "10")])]),
      ("required", .arr [.str "query"])])]

def count (args : Json) : ℕ := min (((args.get "count").bind asU64).getD MAX_RESULTS) 10

def call (searxng : Search) (args : Json) : Except String Json :=
  match (args.get "query").bind Json.asStr with
  | none => .error "missing required argument: query"
  | some query =>
    if (trim query.toList).isEmpty then .error "query must not be empty"
    else search searxng query (count args)

def tool (searxng : Search) : Tool := { spec := spec, call := call searxng }

/-- The results are a front of SearXNG's own, at most ten and in their order. -/
theorem call_ok {searxng : Search} {args data : Json} (h : call searxng args = .ok data) :
    ∃ query body items, (args.get "query").bind Json.asStr = some query ∧ trim query.toList ≠ [] ∧
      searxng query = .ok body ∧ data = .arr (((items : List Json).take (count args)).map result) ∧
        (body.get "results" = some (.arr items) ∨ items = []) := by
  unfold call at h
  cases hquery : (args.get "query").bind Json.asStr with
  | none =>
    rw [hquery] at h
    cases h
  | some query =>
    simp only [hquery] at h
    by_cases hblank : (trim query.toList).isEmpty = true
    · rw [if_pos hblank] at h
      cases h
    · have hne : trim query.toList ≠ [] := fun heq => hblank (by rw [heq]; rfl)
      rw [if_neg hblank, search] at h
      cases hbody : searxng query with
      | error e =>
        rw [hbody] at h
        cases h
      | ok body =>
        simp only [hbody, bind, Except.bind] at h
        split at h
        · rename_i items hitems
          cases h
          exact ⟨query, body, items, rfl, hne, hbody, rfl, Or.inl hitems⟩
        · cases h
          exact ⟨query, body, [], rfl, hne, hbody, by simp, Or.inr rfl⟩

end WebSearchTool

/-! ## Image analysis -/

namespace AnalyzeImageTool

def DEFAULT_PROMPT : String := "Describe this image in detail."

inductive GatewayReply
  | failed (error : String)
  /-- No success, with the text of its status and its body. -/
  | refused (status text : String)
  | unreadable (error : String)
  | json (v : Json)

/-- The environment, and what the gateway answers for an image and a prompt. -/
structure Gateway where
  apiKey : Option String
  model : String
  generate : String → String → GatewayReply

def described (v : Json) : Except String String :=
  let text := trim (strOr v "response" "").toList
  if text.isEmpty then .error "Empty response from vision model" else .ok (String.ofList text)

def analyze (g : Gateway) (image prompt : String) : Except String String :=
  match g.apiKey with
  | none => .error "VERONEX_API_KEY is not configured"
  | some _ =>
    match g.generate image prompt with
    | .failed e => .error ("Veronex request failed: " ++ e)
    | .refused status text => .error ("Veronex returned " ++ status ++ ": " ++ text)
    | .unreadable e => .error ("Response parse error: " ++ e)
    | .json v => described v

def spec : Json :=
  .obj [("name", .str "analyze_image"),
    ("description", .str ("Analyze a base64-encoded image using a vision model and return a detailed " ++
      "text description. Use this tool when you receive an image that you cannot process directly — " ++
      "pass the returned description as context for your response.")),
    ("inputSchema", .obj [("type", .str "object"),
      ("properties", .obj [
        ("image", .obj [("type", .str "string"),
          ("description", .str "Base64-encoded image data (raw base64, no data URL prefix)")]),
        ("prompt", .obj [("type", .str "string"),
          ("description", .str "What to ask about the image. Defaults to a general description request.")])]),
      ("required", .arr [.str "image"])]),
    ("annotations", .obj [("readOnlyHint", .bool true), ("idempotentHint", .bool true),
      ("title", .str "Analyze Image")])]

def nonempty (s : String) : Bool := !s.isEmpty

/-- What follows the first comma of a data URL. -/
def withoutPrefix (image : String) : String :=
  match image.toList.dropWhile (· ≠ ',') with
  | _ :: data => String.ofList data
  | [] => image

def call (g : Gateway) (args : Json) : Except String Json :=
  match ((args.get "image").bind Json.asStr).filter nonempty with
  | none => .error "Missing required argument: image"
  | some image =>
    let prompt := (((args.get "prompt").bind Json.asStr).filter nonempty).getD DEFAULT_PROMPT
    (analyze g (withoutPrefix image) prompt).map fun description =>
      .obj [("description", .str description), ("model", .str g.model)]

def tool (g : Gateway) : Tool := { spec := spec, call := call g }

theorem withoutPrefix_dataUrl {front : String} (hfront : ',' ∉ front.toList) (data : String) :
    withoutPrefix (front ++ "," ++ data) = data := by
  have hdrop : (front ++ "," ++ data).toList.dropWhile (· ≠ ',') = ',' :: data.toList := by
    have hall : ∀ c ∈ front.toList, decide (c ≠ ',') = true := by
      intro c hc
      exact decide_eq_true fun heq => hfront (heq ▸ hc)
    simp only [String.toList_append, List.append_assoc]
    rw [List.dropWhile_append_of_pos hall]
    rfl
  rw [withoutPrefix, hdrop]
  exact String.ofList_toList

theorem withoutPrefix_raw {data : String} (hdata : ',' ∉ data.toList) : withoutPrefix data = data := by
  have hdrop : data.toList.dropWhile (· ≠ ',') = [] := by
    refine List.dropWhile_eq_nil_iff.mpr fun c hc => ?_
    exact decide_eq_true fun heq => hdata (heq ▸ hc)
  rw [withoutPrefix, hdrop]

end AnalyzeImageTool
end Veronex.Mcp.Wire
