import Veronex.Mcp.ToolDispatch

/-! # The access set of a key

`run_loop` injects tools that `get_all` returns for the access set of the key, or that the vector
index answers; `execute_one` looks at the set again.
-/
namespace Veronex.Mcp
set_option autoImplicit false
open Concurrency

/-- A hit of the index, as far as a definition is built from it. -/
structure VespaHit where
  serverId : Uuid
  serverName : String
  toolName : String
  description : String
  inputSchema : String

/-- `hits_to_openai`; `fromStr` is `serde_json::from_str`. -/
def VespaHit.toOpenai (fromStr : String → Option Json) (h : VespaHit) : Json :=
  .obj [("type", .str "function"),
    ("function", .obj [("name", .str ("mcp_" ++ h.serverName ++ "_" ++ h.toolName)),
      ("description", .str h.description),
      ("parameters", (fromStr h.inputSchema).getD
        (.obj [("type", .str "object"), ("properties", .obj [])]))])]

/-- The servers a call may use; `acl` is what `fetch_mcp_acl` finds for the key. -/
def allowedServers (caller : InferCaller) (acl : List Uuid) : Option (List Uuid) :=
  caller.apiKeyId.map fun _ => acl

def permits (allowed : Option (List Uuid)) (id : Uuid) : Bool := allowed.all fun ids => id ∈ ids

/-- The tools `run_loop` injects, with their servers. `selector` is what the index answers, where
there is one, and `all` what `get_all` returns. -/
def injected (fromStr : String → Option Json) (caller : InferCaller) (cap : Option ℕ)
    (base : List Json) (selector : Option (Option (List VespaHit))) (all : List McpTool) :
    List (Uuid × Json) :=
  match maxRounds caller cap with
  | none => []
  | some _ =>
    let tools : List (Uuid × Json) := match selector with
      | some (some hits) => hits.map fun h : VespaHit => (h.serverId, h.toOpenai fromStr)
      | _ => all.map fun t : McpTool => (t.serverId, t.toOpenaiFunction)
    tools.take (MAX_TOOLS_PER_REQUEST - base.length)

section Access
variable {m : McpServers} {c c' : ToolCache} {op op' : Op} {effect : Effect} {answer : Answer}

def GetAll.Permitted (g : GetAll) : Prop := ∀ t ∈ g.tools, permits g.allowed t.serverId = true

/-- What an operation has gone through is permitted. -/
def Op.Permitted : Op → Prop
  | .names id _ _ frame | .get id frame =>
    ∀ g, frame = some g → g.Permitted ∧ permits g.allowed id = true
  | .visit g => g.Permitted
  | .returned allowed tools => ∀ t ∈ tools, permits allowed t.serverId = true
  | .define allowed id _ _ | .executed allowed id _ _ => permits allowed id = true
  | .lock _ | .fetch _ | .slug .. | .drop .. | .retract .. | .snapshot _ | .liveness ..
  | .resolve .. | .unknown .. | .refused | .finished => True

namespace GetAll
variable {g : GetAll} {tools : List McpTool} {n : ℕ}

theorem push_permitted (hg : g.Permitted) (htools : ∀ t ∈ tools, permits g.allowed t.serverId = true) :
    (g.push n tools).Permitted := by
  have hall : ∀ t ∈ g.tools ++ tools.take (n - g.tools.length),
      permits g.allowed t.serverId = true := by
    intro t ht
    rcases List.mem_append.mp ht with ht | ht
    · exact hg t ht
    · exact htools t (List.mem_of_mem_take ht)
  simp only [push]
  split
  · exact hall
  · exact hall

theorem step_permitted {now : Millis} (hg : g.Permitted)
    (hkeyed : ∀ e ∈ g.keyed, e.2.serverId = e.1) : (g.step now n).Permitted := by
  obtain ⟨allowed, online, rest, found⟩ := g
  cases rest with
  | nil => exact hg
  | cons entry rest =>
    simp only [step]
    split
    · exact hg
    · split
      · exact hg
      · next hallowed =>
        have hid : permits allowed entry.1 = true := by
          cases allowed with
          | none => rfl
          | some ids => simpa [permits] using hallowed
        split
        · intro _ hframe
          obtain rfl := Option.some.inj hframe
          exact ⟨hg, hid⟩
        · refine push_permitted hg fun t ht => ?_
          have hserver := hkeyed (entry.1, t) (by
            rw [keyed, entryTools, List.flatMap_cons]
            exact List.mem_append_left _ (List.mem_map_of_mem ht))
          rw [hserver]
          exact hid

end GetAll

theorem Op.step_permitted (hpermitted : op.Permitted) (hkeyed : ∀ e ∈ op.keyed, e.2.serverId = e.1)
    (h : op.step m c answer = some (effect, op')) : op'.Permitted := by
  cases op with
  | names id entered rest frame =>
    cases rest with
    | nil =>
      rw [← (Prod.mk.inj (Option.some.inj h)).2]
      cases frame with
      | none => trivial
      | some g =>
        obtain ⟨hg, hid⟩ := hpermitted g rfl
        refine GetAll.push_permitted hg fun t ht => ?_
        have hserver := hkeyed (id, t) (by simpa [Op.keyed] using .inl ht)
        rw [hserver]
        exact hid
    | cons t rest =>
      rw [← (Prod.mk.inj (Option.some.inj h)).2]
      exact hpermitted
  | get id frame =>
    simp only [Op.step] at h
    generalize (if answer.ok = true then answer.tools else []) = found at h
    split at h
    · rw [← (Prod.mk.inj (Option.some.inj h)).2]
      cases frame with
      | none => trivial
      | some g => exact (hpermitted g rfl).1
    · rw [← (Prod.mk.inj (Option.some.inj h)).2]
      exact hpermitted
  | visit g =>
    rw [← (Prod.mk.inj (Option.some.inj h)).2]
    exact GetAll.step_permitted hpermitted hkeyed
  | snapshot allowed =>
    simp only [Op.step] at h
    split at h
    · cases h
    · split at h
      · rw [← (Prod.mk.inj (Option.some.inj h)).2]
        intro t ht
        cases ht
      · rw [← (Prod.mk.inj (Option.some.inj h)).2]
        trivial
  | liveness allowed entries =>
    rw [← (Prod.mk.inj (Option.some.inj h)).2]
    intro t ht
    cases ht
  | resolve allowed name offer =>
    rw [← (Prod.mk.inj (Option.some.inj h)).2]
    split
    · trivial
    · split
      · trivial
      · next id _ hallowed =>
        cases allowed with
        | none => rfl
        | some ids => simpa [Op.Permitted, permits] using hallowed
  | define allowed id name offer =>
    rw [← (Prod.mk.inj (Option.some.inj h)).2]
    split
    · trivial
    · exact hpermitted
  | lock id =>
    rw [← (Prod.mk.inj (Option.some.inj h)).2]
    split
    · trivial
    · rintro g hg
      cases hg
  | fetch id =>
    rw [← (Prod.mk.inj (Option.some.inj h)).2]
    split
    · split <;> trivial
    · trivial
  | slug id tools =>
    rw [← (Prod.mk.inj (Option.some.inj h)).2]
    rintro g hg
    cases hg
  | drop id forget =>
    rw [← (Prod.mk.inj (Option.some.inj h)).2]
    trivial
  | retract id rest forget =>
    cases rest <;> (rw [← (Prod.mk.inj (Option.some.inj h)).2]; trivial)
  | returned allowed tools | executed allowed id rawName offer | unknown offer cached | refused
  | finished => cases h

theorem ToolCache.started_permitted {a : Action} (h : c.started m a = some op) : op.Permitted := by
  cases a with
  | callOffered k i =>
    obtain ⟨op₀, -, h⟩ := Option.bind_eq_some_iff.mp h
    split at h
    · obtain ⟨u, -, h⟩ := Option.bind_eq_some_iff.mp h
      rw [← Option.some.inj h]
      trivial
    · cases h
  | cacheFetchedTools id tools =>
    obtain ⟨slug, -, h⟩ := Option.bind_eq_some_iff.mp h
    rw [← Option.some.inj h]
    split <;> trivial
  | tick ms | run k answer => cases h
  | loadFromValkey id =>
    rw [← Option.some.inj h]
    rintro g hg
    cases hg
  | refresh id | invalidate id | removeServer id | getAll allowed | call allowed name =>
    rw [← Option.some.inj h]
    trivial

theorem ToolCache.permitted_step (hfilled : c.Filled m) (hc : ∀ op ∈ c.ops, op.Permitted) {a : Action}
    (h : c.step m a = some c') : ∀ op ∈ c'.ops, op.Permitted := by
  rcases step_start h with ⟨k, answer, rfl⟩ | ⟨-, -, -, hops⟩
  · obtain ⟨op, effect, op', hk, hop, rfl⟩ := step_run h
    obtain ⟨others, hreplaced, -⟩ := advance_replaced hk op' []
    have hmem := hreplaced.task_mem
    exact hreplaced.forall_mem (fun x hx => hc x (hreplaced.other_mem_before hx))
      (Op.step_permitted (hc op hmem) (fun e he => (hfilled.keyed op hmem e he).1) hop) (by simp)
  · rcases hops with hops | ⟨op, hop, hops⟩
    · rw [hops]
      exact hc
    · rw [hops]
      intro x hx
      rcases List.mem_append.mp hx with hx | hx
      · exact hc x hx
      · obtain rfl := List.mem_singleton.mp hx
        exact started_permitted hop

/-- Whether what the index answers, as far as it is injected, is of servers the call may use. -/
def hitsPermitted (caller : InferCaller) (cap : Option ℕ) (acl : List Uuid) (base : List Json)
    (selector : Option (Option (List VespaHit))) : Bool :=
  (maxRounds caller cap).isNone || selector.all fun found => found.all fun hits =>
    (hits.take (MAX_TOOLS_PER_REQUEST - base.length)).all fun h =>
      permits (allowedServers caller acl) h.serverId

/-- The tools that are injected are of servers the call may use, and so is every server a tool is
executed on, exactly when the hits of the index are. -/
theorem injected_permitted_iff {now : Millis}
    (hrun : Run (ToolCache.step m) (fun _ _ => True) (ToolCache.init now) c)
    (fromStr : String → Option Json) (caller : InferCaller) (cap : Option ℕ) (acl : List Uuid) (base : List Json)
    (selector : Option (Option (List VespaHit))) (all : List McpTool)
    (hall : selector.join = none → .returned (allowedServers caller acl) all ∈ c.ops) :
    ((∀ d ∈ injected fromStr caller cap base selector all,
        permits (allowedServers caller acl) d.1 = true) ∧
      ∀ allowed id rawName offer, .executed allowed id rawName offer ∈ c.ops →
        permits allowed id = true) ↔
      hitsPermitted caller cap acl base selector = true := by
  have hc : c.Filled m ∧ ∀ op ∈ c.ops, op.Permitted :=
    hrun.invariant (I := fun c => c.Filled m ∧ ∀ op ∈ c.ops, op.Permitted)
      ⟨ToolCache.filled_init now, by simp [ToolCache.init]⟩
      fun _ _ _ _ hc _ hs => ⟨hc.1.step hs, ToolCache.permitted_step hc.1 hc.2 hs⟩
  have hexecuted : ∀ allowed id rawName offer, .executed allowed id rawName offer ∈ c.ops →
      permits allowed id = true := fun _ _ _ _ hmem => hc.2 _ hmem
  rw [and_iff_left hexecuted]
  simp only [injected, hitsPermitted]
  cases hcap : maxRounds caller cap with
  | none => simp
  | some rounds =>
    cases hselector : selector.join with
    | some hits =>
      obtain rfl : selector = some (some hits) := Option.join_eq_some_iff.mp hselector
      simp only [Option.isNone_some, Bool.false_or, Option.all_some, List.all_eq_true]
      rw [← List.map_take, List.forall_mem_map]
    | none =>
      have hreturned := hc.2 _ (hall hselector)
      have htools : ∀ d ∈ (all.map fun t => (t.serverId, t.toOpenaiFunction)).take
          (MAX_TOOLS_PER_REQUEST - base.length), permits (allowedServers caller acl) d.1 = true := by
        intro d hd
        obtain ⟨t, ht, rfl⟩ := List.mem_map.mp (List.mem_of_mem_take hd)
        exact hreturned t ht
      rcases selector with - | - | hits
      · simpa using htools
      · simpa using htools
      · cases hselector

/-! ## A key with access to one of two servers -/

def returnedTo (allowed : Option (List Uuid)) : Op → Option (List McpTool)
  | .returned held tools => if held = allowed then some tools else none
  | _ => none

theorem returnedTo_eq_some {allowed : Option (List Uuid)} {tools : List McpTool}
    (h : returnedTo allowed op = some tools) : op = .returned allowed tools := by
  cases op with
  | returned held found =>
    simp only [returnedTo] at h
    split at h
    · next heq => rw [heq, Option.some.inj h]
    · cases h
  | _ => cases h

/-- The lists of both servers are stored, and a request for a key with access to the first one has
`get_all` return its tools. -/
theorem getAll_permitted : ∃ c all, Run (ToolCache.step ToolCache.twoServers) (fun _ _ => True)
    (ToolCache.init 0) c ∧ .returned (some [1]) all ∈ c.ops ∧ all.length = 1 ∧
      ∀ d ∈ injected (fun _ => none) (.apiKey 7 .free) none [] none all,
        permits (some [1]) d.1 = true := by
  have hexec : (exec (ToolCache.step ToolCache.twoServers) (fun _ _ => true) (ToolCache.init 0)
      (.flatten [[.cacheFetchedTools 1 [ToolCache.plainTool "x"],
          .cacheFetchedTools 2 [ToolCache.plainTool "y"]],
        ToolCache.steps [1, 2] 0 3 [], ToolCache.steps [1, 2] 1 3 [], [.getAll (some [1])],
        ToolCache.steps [1, 2] 2 5 []])).any
      (fun c => c.ops.any fun op => (returnedTo (some [1]) op).any fun tools => tools.length = 1) =
        true := by
    decide +kernel
  obtain ⟨c, hrun, hc⟩ := @Run.exists_of_exec _ _ _ _ (fun _ _ => True) (fun _ _ _ => trivial) _ _ _
    hexec
  obtain ⟨op, hop, hany⟩ := List.any_eq_true.mp hc
  obtain ⟨all, hall, hlength⟩ := (Option.any_eq_true ..).mp hany
  obtain rfl := returnedTo_eq_some hall
  have hpermitted := (injected_permitted_iff hrun (fun _ => none) (.apiKey 7 .free) none [1] []
    none all fun _ => hop).mpr rfl
  exact ⟨c, all, hrun, hop, of_decide_eq_true hlength, hpermitted.1⟩

/-- A hit for the second server is injected. -/
theorem hit_injected : ∃ d ∈ injected (fun _ => none) (.apiKey 7 .free) none []
    (some (some [{ serverId := 2, serverName := "a_b", toolName := "y", description := ""
                   inputSchema := "" }])) [],
      permits (allowedServers (.apiKey 7 .free) [1]) d.1 = false := by
  exact ⟨_, List.mem_cons_self .., rfl⟩

end Access

end Veronex.Mcp
