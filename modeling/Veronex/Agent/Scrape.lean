import Veronex.Agent.Shard
import Veronex.Domain.Values

/-! # A scrape cycle

`scrape_cycle` of `veronex-agent/src/main.rs` with `scraper.rs` and `capacity_push.rs`: what a cycle
that is not cut off writes to Valkey. `serde_json::from_slice` of a `/api/ps` body is a parameter.
-/
namespace Veronex.Agent
set_option autoImplicit false

def PROVIDER_HEARTBEAT_TTL_SECS : ℕ := 180

def CAPACITY_STATE_TTL : ℕ := 180

def MAX_OLLAMA_BODY : ℕ := 1024 * 1024

def MAX_OLLAMA_MODELS : ℕ := 256

structure OllamaPsModel where
  name : Option String
  sizeVram : Option ℕ
  size : Option ℕ

/-- What `GET /api/ps` gives. -/
inductive PsReply
  /-- Unreachable, or no answer within `SCRAPE_TIMEOUT`. -/
  | failed
  /-- The body is `none` when reading it fails. -/
  | response (status : ℕ) (contentLength : Option ℕ) (body : Option (List UInt8))

structure Gauge where
  name : String
  value : ℕ
  labels : List (String × String)

/-- `OllamaPsResponse::models` of a body, if it parses. -/
abbrev ParsePs := List UInt8 → Option (Option (List OllamaPsModel))

section Scraper
variable (parse : ParsePs)

/-- The status is not looked at. -/
def scrapeOllamaRaw : PsReply → List OllamaPsModel
  | .failed => []
  | .response _ contentLength body =>
    if contentLength.getD 0 > MAX_OLLAMA_BODY then []
    else match body with
      | none => []
      | some bytes =>
        if bytes.length > MAX_OLLAMA_BODY then []
        else match parse bytes with
          | none => []
          | some models => (models.getD []).take MAX_OLLAMA_MODELS

/-- An answer that says what the provider has loaded. -/
def PsReply.succeeded : PsReply → Bool
  | .failed => false
  | .response status contentLength body =>
    decide (200 ≤ status ∧ status < 300) && decide (contentLength.getD 0 ≤ MAX_OLLAMA_BODY) &&
      body.any fun bytes => decide (bytes.length ≤ MAX_OLLAMA_BODY) && (parse bytes).isSome

end Scraper

def ollamaGaugesFromRaw (models : List OllamaPsModel) : List Gauge :=
  { name := "ollama_loaded_models", value := models.length, labels := [] } ::
    models.flatMap fun model =>
      let modelLabel := [("model", model.name.getD "unknown")]
      (model.sizeVram.toList.map fun vram =>
        { name := "ollama_model_size_vram_bytes", value := vram, labels := modelLabel }) ++
      (model.size.toList.map fun size =>
        { name := "ollama_model_size_bytes", value := size, labels := modelLabel })

/-! ## Capacity -/

structure LoadedModelCapacity where
  name : String
  sizeVram : ℕ
  numLayers : ℕ
  numKvHeads : ℕ
  headDim : ℕ
  maxCtx : ℕ
  configuredCtx : ℕ

structure ProviderCapacityState where
  loadedModels : List LoadedModelCapacity
  totalVramMb : ℕ
  tsMs : Millis

/-- The values of `model_info` are `none` where they are no `u64`. -/
structure ShowResponse where
  modelInfo : Option (List (String × Option ℕ))
  parameters : Option String

def splitWhitespace (text : List Char) : List (List Char) :=
  (text.splitOnP isWhitespace).filter (· ≠ [])

def configuredCtx (parameters : String) : Option ℕ := do
  let line ← (parameters.toList.splitOn '\n').find? fun l => "num_ctx".toList.isPrefixOf l
  let word ← (splitWhitespace line)[1]?
  parseU32 word

/-- What `POST /api/show` gave for the model, if it was parsed. -/
def fetchArch (model : String × ℕ) : Option ShowResponse → LoadedModelCapacity
  | none =>
    { name := model.1, sizeVram := model.2, numLayers := 0, numKvHeads := 0, headDim := 0
      maxCtx := 0, configuredCtx := 0 }
  | some resp =>
    let info := resp.modelInfo.getD []
    let find := fun suffix : String =>
      let entry := info.find? fun entry => suffix.toList.isSuffixOf entry.1.toList
      (entry.bind Prod.snd).getD 0 % 2 ^ 32
    let blockCount := find "block_count"
    let attnInterval := find "full_attention_interval"
    let kvHeads := find "attention.head_count_kv"
    { name := model.1, sizeVram := model.2
      numLayers :=
        if attnInterval > 1 then (blockCount + attnInterval - 1) / attnInterval else blockCount
      numKvHeads := if kvHeads > 0 then kvHeads else find "attention.head_count"
      headDim := max (find "attention.key_length") 128
      maxCtx := find "context_length"
      configuredCtx := (resp.parameters.bind configuredCtx).getD 0 }

/-! ## Cycle -/

structure SdTarget where
  targets : List String
  labels : String → Option String

def shardKey (t : SdTarget) : String :=
  match t.labels "type" with
  | some "server" => (t.labels "server_id").getD ""
  | some "ollama" => (t.labels "provider_id").getD ""
  | _ => ""

/-- `SET key value EX ttl`. -/
inductive Write
  | setOnline (providerId : String) (ttl : ℕ)
  | capacityState (providerId : String) (state : ProviderCapacityState) (ttl : ℕ)
  | mcpHeartbeat (serverId : String) (ttl : ℕ)

/-- What a cycle finds around it. -/
structure CycleEnv where
  /-- Whether there is a Valkey pool. -/
  valkey : Bool
  hasher : String → ℕ
  ordinal : ℕ
  replicas : ℕ
  /-- `/v1/mcp/targets`, and whether each answers a ping. -/
  mcpTargets : List (String × Bool)
  /-- `/v1/metrics/targets`, and what `/api/ps` of each gives. -/
  targets : List (SdTarget × PsReply)
  parse : ParsePs
  showModel : String → String → Option ShowResponse
  now : Millis

namespace CycleEnv
variable (env : CycleEnv)

def myTargets : List (SdTarget × PsReply) :=
  env.targets.filter fun t => owns env.hasher (shardKey t.1) env.ordinal env.replicas

/-- `capacity_push::push`. -/
def push (url providerId : String) (totalVramMb : ℕ) (loadedModels : List (String × ℕ)) : Write :=
  .capacityState providerId
    { loadedModels := loadedModels.map fun m => fetchArch m (env.showModel url m.1)
      totalVramMb, tsMs := env.now } CAPACITY_STATE_TTL

/-- The task of an `ollama` target. -/
def scrapeOllama (url : String) (t : SdTarget) (reply : PsReply) : List Write :=
  let raw := scrapeOllamaRaw env.parse reply
  let metrics := ollamaGaugesFromRaw raw
  if env.valkey then
    match t.labels "provider_id" with
    | some providerId =>
      let totalVramMb := ((t.labels "total_vram_mb").bind fun s => parseU64 s.toList).getD 0
      let loaded := raw.filterMap fun m => m.name.map fun name => (name, m.sizeVram.getD 0)
      (if !raw.isEmpty || metrics.any (fun g => g.name == "ollama_loaded_models") then
        [.setOnline providerId PROVIDER_HEARTBEAT_TTL_SECS]
      else []) ++ [env.push url providerId totalVramMb loaded]
    | none => []
  else []

/-- The task of a target. A `server` target writes nothing. -/
def scrapeTarget (t : SdTarget × PsReply) : List Write :=
  match t.1.targets.head?, t.1.labels "type" with
  | some url, some "ollama" => env.scrapeOllama url t.1 t.2
  | _, _ => []

def pingMcpServers : List Write :=
  if env.valkey then
    (env.mcpTargets.filter Prod.snd).map fun m => .mcpHeartbeat m.1 PROVIDER_HEARTBEAT_TTL_SECS
  else []

/-- The tasks of the targets run at once: the order of their writes is not meant. -/
def scrapeCycle : List Write := env.pingMcpServers ++ env.myTargets.flatMap env.scrapeTarget

/-- A target the cycle scrapes for a provider. -/
def Scrapes (providerId : String) (t : SdTarget × PsReply) : Prop :=
  t ∈ env.myTargets ∧ t.1.targets ≠ [] ∧ t.1.labels "type" = some "ollama" ∧
    t.1.labels "provider_id" = some providerId

def keepsOnline (providerId : String) : Prop :=
  ∃ ttl, Write.setOnline providerId ttl ∈ env.scrapeCycle

def writesCapacity (providerId : String) : Prop :=
  ∃ state ttl, Write.capacityState providerId state ttl ∈ env.scrapeCycle

/-- The cycle has scraped the provider. -/
def Scraped (providerId : String) : Prop :=
  ∃ t, env.Scrapes providerId t ∧ t.2.succeeded env.parse = true

end CycleEnv

/-! ## What a cycle writes -/

/-- There is a gauge of how many models are loaded whatever the scrape gave. -/
theorem ollamaGaugesFromRaw_loaded (models : List OllamaPsModel) :
    (ollamaGaugesFromRaw models).any (fun g => g.name == "ollama_loaded_models") = true := by
  simp [ollamaGaugesFromRaw]

namespace CycleEnv
variable {env : CycleEnv} {providerId : String} {t : SdTarget × PsReply} {w : Write}

theorem scrapeOllama_writes (url : String) (hvalkey : env.valkey = true)
    (hid : t.1.labels "provider_id" = some providerId) :
    ∃ state, env.scrapeOllama url t.1 t.2 =
      [.setOnline providerId PROVIDER_HEARTBEAT_TTL_SECS,
        .capacityState providerId state CAPACITY_STATE_TTL] := by
  simp only [scrapeOllama, hvalkey, hid, ollamaGaugesFromRaw_loaded, Bool.or_true, if_true,
    List.singleton_append, push]
  exact ⟨_, rfl⟩

theorem not_mem_pingMcpServers (hw : ∀ id ttl, w ≠ .mcpHeartbeat id ttl) :
    w ∉ env.pingMcpServers := by
  intro hmem
  unfold pingMcpServers at hmem
  split at hmem
  · obtain ⟨m, -, heq⟩ := List.mem_map.mp hmem
    exact hw _ _ heq.symm
  · cases hmem

/-- A provider the cycle scrapes gets both writes, whatever its answer was. -/
theorem writes_of_scrapes (hvalkey : env.valkey = true) (h : env.Scrapes providerId t) :
    env.keepsOnline providerId ∧ env.writesCapacity providerId := by
  obtain ⟨hmine, hurl, htype, hid⟩ := h
  obtain ⟨url, hhead⟩ := Option.isSome_iff_exists.mp (List.isSome_head?.mpr hurl)
  have hwrites : ∀ w ∈ env.scrapeOllama url t.1 t.2, w ∈ env.scrapeCycle := by
    intro w hw
    refine List.mem_append.mpr (.inr (List.mem_flatMap.mpr ⟨t, hmine, ?_⟩))
    rw [scrapeTarget, hhead, htype]
    exact hw
  obtain ⟨state, heq⟩ := scrapeOllama_writes url hvalkey hid
  rw [heq] at hwrites
  exact ⟨⟨_, hwrites _ List.mem_cons_self⟩,
    ⟨state, _, hwrites _ (List.mem_cons_of_mem _ List.mem_cons_self)⟩⟩

/-- A write about a provider is of a target of that provider. -/
theorem scrapes_of_mem (hw : w ∈ env.scrapeCycle)
    (hkind : ∀ id ttl, w ≠ .mcpHeartbeat id ttl) :
    env.valkey = true ∧ ∃ providerId t, env.Scrapes providerId t ∧
      (w = .setOnline providerId PROVIDER_HEARTBEAT_TTL_SECS ∨
        ∃ state, w = .capacityState providerId state CAPACITY_STATE_TTL) := by
  obtain hping | htarget := List.mem_append.mp hw
  · exact absurd hping (not_mem_pingMcpServers hkind)
  obtain ⟨t, hmine, hw⟩ := List.mem_flatMap.mp htarget
  unfold scrapeTarget at hw
  split at hw
  · next url hhead htype =>
    have hurl : t.1.targets ≠ [] := by
      intro hnil
      rw [hnil] at hhead
      cases hhead
    by_cases hvalkey : env.valkey = true
    · cases hid : t.1.labels "provider_id" with
      | none => simp [scrapeOllama, hvalkey, hid] at hw
      | some providerId =>
        obtain ⟨state, heq⟩ := scrapeOllama_writes url hvalkey hid
        rw [heq] at hw
        refine ⟨hvalkey, providerId, t, ⟨hmine, hurl, htype, hid⟩, ?_⟩
        rcases List.mem_cons.mp hw with hw | hw
        · exact .inl hw
        · exact .inr ⟨state, List.mem_singleton.mp hw⟩
    · simp [scrapeOllama, hvalkey] at hw
  · cases hw

theorem keepsOnline_iff :
    env.keepsOnline providerId ↔ env.valkey = true ∧ ∃ t, env.Scrapes providerId t := by
  constructor
  · rintro ⟨ttl, hw⟩
    obtain ⟨hvalkey, id, t, hscrapes, hkind⟩ := scrapes_of_mem hw (by rintro _ _ ⟨⟩)
    obtain heq | ⟨state, heq⟩ := hkind
    · obtain ⟨rfl, -⟩ := Write.setOnline.inj heq
      exact ⟨hvalkey, t, hscrapes⟩
    · cases heq
  · rintro ⟨hvalkey, t, hscrapes⟩
    exact (writes_of_scrapes hvalkey hscrapes).1

theorem writesCapacity_iff :
    env.writesCapacity providerId ↔ env.valkey = true ∧ ∃ t, env.Scrapes providerId t := by
  constructor
  · rintro ⟨state, ttl, hw⟩
    obtain ⟨hvalkey, id, t, hscrapes, hkind⟩ := scrapes_of_mem hw (by rintro _ _ ⟨⟩)
    obtain heq | ⟨state', heq⟩ := hkind
    · cases heq
    · obtain ⟨rfl, -, -⟩ := Write.capacityState.inj heq
      exact ⟨hvalkey, t, hscrapes⟩
  · rintro ⟨hvalkey, t, hscrapes⟩
    exact (writes_of_scrapes hvalkey hscrapes).2

/-- A cycle writes what it scraped exactly when nothing it scrapes fails, or it cannot write and
nothing succeeds. -/
theorem writes_successes_iff (env : CycleEnv) :
    (∀ providerId, (env.keepsOnline providerId ↔ env.Scraped providerId) ∧
      (env.writesCapacity providerId ↔ env.Scraped providerId)) ↔
      if env.valkey then ∀ providerId t, env.Scrapes providerId t → env.Scraped providerId
      else ∀ providerId, ¬ env.Scraped providerId := by
  simp only [keepsOnline_iff, writesCapacity_iff]
  split
  · next hvalkey =>
    constructor
    · intro h providerId t hscrapes
      exact (h providerId).1.mp ⟨hvalkey, t, hscrapes⟩
    · intro h providerId
      have hiff : (env.valkey = true ∧ ∃ t, env.Scrapes providerId t) ↔ env.Scraped providerId := by
        constructor
        · rintro ⟨-, t, hscrapes⟩
          exact h providerId t hscrapes
        · rintro ⟨t, hscrapes, -⟩
          exact ⟨hvalkey, t, hscrapes⟩
      exact ⟨hiff, hiff⟩
  · next hvalkey => simp [hvalkey]

end CycleEnv

/-- One agent, and one Ollama provider that does not answer. -/
def unreachableCycle : CycleEnv where
  valkey := true
  hasher _ := 0
  ordinal := 0
  replicas := 1
  mcpTargets := []
  targets :=
    [({ targets := ["http://ollama:11434"]
        labels := fun label => if label = "type" then some "ollama"
          else if label = "provider_id" then some "p" else none }, .failed)]
  parse _ := none
  showModel _ _ := none
  now := 0

theorem unreachable_kept_online :
    unreachableCycle.keepsOnline "p" ∧ unreachableCycle.writesCapacity "p" ∧
      ¬ unreachableCycle.Scraped "p" := by
  have hscrapes : ∃ t, unreachableCycle.Scrapes "p" t := by
    refine ⟨unreachableCycle.targets.head (by decide), ?_, by decide, by decide, by decide⟩
    exact List.mem_filter.mpr ⟨List.head_mem _, rfl⟩
  refine ⟨CycleEnv.keepsOnline_iff.mpr ⟨rfl, hscrapes⟩,
    CycleEnv.writesCapacity_iff.mpr ⟨rfl, hscrapes⟩, ?_⟩
  rintro ⟨t, ⟨hmine, -⟩, hok⟩
  obtain rfl := List.mem_singleton.mp (List.mem_filter.mp hmine).1
  cases hok

end Veronex.Agent
