import Veronex.Mcp.ToolNames

/-! # Calls of offered tools

A request is offered tools by `get_all` and calls them by name later. The name leads back to the
server and the tool it was offered for, as long as no other server's list takes the name over in the
meantime and the tool is still in its list, or its name can be taken apart.
-/
namespace Veronex.Mcp
set_option autoImplicit false
open Concurrency

/-! ## Names -/

section Names
variable {m : McpServers} {t u : McpTool} {id : Uuid}

/-- A tool has the slug of its server, or none. -/
def McpTool.Genuine (m : McpServers) (t : McpTool) : Prop :=
  t.serverName = "" ∨ m.slugs.lookup t.serverId = some t.serverName

def McpTool.Of (m : McpServers) (id : Uuid) (t : McpTool) : Prop := t.serverId = id ∧ t.Genuine m

theorem McpTool.toList_namespacedName (t : McpTool) : t.namespacedName.toList =
    "mcp_".toList ++ (t.serverName.toList ++ '_' :: t.name.toList) := by
  simp [namespacedName]

theorem mem_of_lookup {slug : String} (h : m.slugs.lookup id = some slug) :
    (id, slug) ∈ m.slugs := by
  obtain ⟨before, after, hsplit, -⟩ := List.lookup_eq_some_iff.mp h
  rw [hsplit]
  exact List.mem_append_right _ (List.mem_cons_self ..)

theorem slug_ne_underscore {slug : String} {rest : List Char} (h : validateSlug slug = true) :
    slug.toList ≠ '_' :: rest := by
  intro heq
  simp [validateSlug, heq] at h

/-- On one server the name of a tool is read off the namespaced name. -/
theorem McpTool.name_inj (ht : t.Genuine m) (hu : u.Genuine m) (hid : t.serverId = u.serverId)
    (h : t.namespacedName = u.namespacedName) : t.name = u.name := by
  have hlists := congrArg String.toList h
  rw [toList_namespacedName, toList_namespacedName] at hlists
  replace hlists := List.append_cancel_left hlists
  have hempty : ∀ {v w : McpTool}, v.serverName = "" → m.slugs.lookup w.serverId = some w.serverName →
      v.serverName.toList ++ '_' :: v.name.toList ≠ w.serverName.toList ++ '_' :: w.name.toList := by
    intro v w hv hw heq
    have hvalid := m.slug_valid _ (mem_of_lookup hw)
    rw [hv] at heq
    cases hslug : w.serverName.toList with
    | nil => simp [validateSlug, hslug] at hvalid
    | cons c rest =>
      rw [hslug] at heq
      obtain rfl : '_' = c := (List.cons.inj heq).1
      exact slug_ne_underscore hvalid hslug
  rcases ht with ht | ht <;> rcases hu with hu | hu
  · rw [ht, hu] at hlists
    exact String.toList_inj.mp (List.cons.inj hlists).2
  · exact absurd hlists (hempty ht hu)
  · exact absurd hlists.symm (hempty hu ht)
  · rw [hid, hu] at ht
    have hslug := Option.some.inj ht
    rw [hslug] at hlists
    exact String.toList_inj.mp (List.cons.inj (List.append_cancel_left hlists)).2

theorem isPrefixOf?_append (p s : List Char) : p.isPrefixOf? (p ++ s) = some s := by
  induction p with
  | nil => rfl
  | cons c p ih => rw [List.cons_append, List.isPrefixOf?, beq_self_eq_true, if_pos rfl, ih]

theorem rawToolName_namespacedName (h : '_' ∉ t.serverName.toList) :
    rawToolName t.namespacedName = t.name := by
  have hprefix : "mcp_".toList.isPrefixOf? t.namespacedName.toList =
      some (t.serverName.toList ++ '_' :: t.name.toList) := by
    rw [McpTool.toList_namespacedName, isPrefixOf?_append]
  have hdrop : (t.serverName.toList ++ '_' :: t.name.toList).dropWhile (· ≠ '_') =
      '_' :: t.name.toList := by
    rw [List.dropWhile_append_of_pos]
    · simp
    · intro c hc
      simpa using fun heq : c = '_' => h (heq ▸ hc)
  rw [rawToolName, hprefix]
  simp only [List.mem_append, List.mem_cons, true_or, or_true, if_true, hdrop, List.drop_succ_cons,
    List.drop_zero, String.ofList_toList]

end Names

/-! ## The tools of an operation -/

/-- The tools of cached lists, with their servers. -/
def entryTools (entries : List (Uuid × CachedTools)) : List (Uuid × McpTool) :=
  entries.flatMap fun e => e.2.tools.map fun t => (e.1, t)

namespace GetAll

def keyed (g : GetAll) : List (Uuid × McpTool) := entryTools g.rest

/-- The tools that are offered or may still be. -/
def offers (g : GetAll) : List McpTool := g.tools ++ g.keyed.map Prod.snd

end GetAll

namespace Op

/-- The tools an operation has for a server. -/
def keyed : Op → List (Uuid × McpTool)
  | .slug id tools => tools.map fun t => (id, t)
  | .names id entered rest frame =>
    (entered ++ rest).map (fun t => (id, t)) ++ frame.elim [] GetAll.keyed
  | .get _ frame => frame.elim [] GetAll.keyed
  | .liveness _ entries => entryTools entries
  | .visit g => g.keyed
  | .lock _ | .fetch _ | .drop .. | .retract .. | .snapshot _ | .returned .. | .resolve ..
  | .define .. | .executed .. | .unknown .. | .refused | .finished => []

/-- The tools that a request was offered or may still be. -/
def offers : Op → List McpTool
  | .names _ _ _ frame | .get _ frame => frame.elim [] GetAll.offers
  | .liveness _ entries => (entryTools entries).map Prod.snd
  | .visit g => g.offers
  | .returned _ tools => tools
  | .resolve _ _ offer | .define _ _ _ offer => offer.toList
  | .lock _ | .fetch _ | .slug .. | .drop .. | .retract .. | .snapshot _ | .executed ..
  | .unknown .. | .refused | .finished => []

end Op

section Steps
variable {m : McpServers} {c c' : ToolCache} {op op' : Op} {effect : Effect} {answer : Answer}
  {g : GetAll} {frame : Option GetAll} {tools : List McpTool} {t : McpTool} {e : Uuid × McpTool}

namespace GetAll

theorem push_keyed {n : ℕ} (he : e ∈ (g.push n tools).keyed) : e ∈ g.keyed := by
  simp only [push] at he
  split at he
  · cases he
  · exact he

theorem push_offers {n : ℕ} (ht : t ∈ (g.push n tools).offers) : t ∈ g.offers ∨ t ∈ tools := by
  have hsub : ∀ t ∈ g.tools ++ tools.take (n - g.tools.length), t ∈ g.tools ∨ t ∈ tools :=
    fun t ht => (List.mem_append.mp ht).imp_right List.mem_of_mem_take
  simp only [push] at ht
  split at ht
  · exact (hsub t ht).imp_left (List.mem_append_left _)
  · rcases List.mem_append.mp ht with ht | ht
    · exact (hsub t ht).imp_left (List.mem_append_left _)
    · exact .inl (List.mem_append_right _ ht)

theorem loaded_keyed {n : ℕ} (he : e ∈ (loaded n tools frame).keyed) :
    e ∈ frame.elim [] keyed := by
  cases frame with
  | none => cases he
  | some g => exact push_keyed he

theorem loaded_offers {n : ℕ} (ht : t ∈ (loaded n tools frame).offers) :
    t ∈ frame.elim [] offers ∨ t ∈ tools := by
  cases frame with
  | none => cases ht
  | some g => exact push_offers ht

theorem step_keyed {now : Millis} {n : ℕ} (he : e ∈ (g.step now n).keyed) : e ∈ g.keyed := by
  obtain ⟨allowed, online, rest, found⟩ := g
  cases rest with
  | nil => cases he
  | cons entry rest =>
    have hrest : ∀ e ∈ entryTools rest, e ∈ entryTools (entry :: rest) := fun e he => by
      rw [entryTools, List.flatMap_cons]
      exact List.mem_append_right _ he
    simp only [step] at he
    split at he
    · exact hrest e he
    · split at he
      · exact hrest e he
      · split at he
        · exact hrest e he
        · exact hrest e (push_keyed he)

theorem step_offers {now : Millis} {n : ℕ} (ht : t ∈ (g.step now n).offers) : t ∈ g.offers := by
  obtain ⟨allowed, online, rest, found⟩ := g
  cases rest with
  | nil => exact List.mem_append_left _ ht
  | cons entry rest =>
    have hrest : ∀ t ∈ offers { allowed, online, rest, tools := found },
        t ∈ offers { allowed, online, rest := entry :: rest, tools := found } := fun t ht => by
      rcases List.mem_append.mp ht with ht | ht
      · exact List.mem_append_left _ ht
      · obtain ⟨e, he, rfl⟩ := List.mem_map.mp ht
        refine List.mem_append_right _ (List.mem_map_of_mem ?_)
        rw [keyed, entryTools, List.flatMap_cons]
        exact List.mem_append_right _ he
    simp only [step] at ht
    split at ht
    · exact hrest t ht
    · split at ht
      · exact hrest t ht
      · split at ht
        · exact hrest t ht
        · rcases push_offers ht with ht | ht
          · exact hrest t ht
          · refine List.mem_append_right _ (List.mem_map.mpr ⟨(entry.1, t), ?_, rfl⟩)
            rw [keyed, entryTools, List.flatMap_cons]
            exact List.mem_append_left _ (List.mem_map_of_mem ht)

end GetAll

theorem mem_snapshot {order : List Uuid}
    (he : e ∈ entryTools (order.filterMap fun id => (c.l1.lookup id).map fun x => (id, x))) :
    ∃ entry, c.l1.lookup e.1 = some entry ∧ e.2 ∈ entry.tools := by
  obtain ⟨x, hx, he⟩ := List.mem_flatMap.mp he
  obtain ⟨id, -, hid⟩ := List.mem_filterMap.mp hx
  obtain ⟨entry, hentry, rfl⟩ := Option.map_eq_some_iff.mp hid
  obtain ⟨t, ht, rfl⟩ := List.mem_map.mp he
  exact ⟨entry, hentry, ht⟩

/-- The slug a tool is filled in with. -/
def McpServers.Names (m : McpServers) (c : ToolCache) (id : Uuid) (slug : String) : Prop :=
  slug = "" ∨ c.serverSlugs id = some slug ∨ m.slugs.lookup id = some slug

namespace Op

theorem step_keyed (h : op.step m c answer = some (effect, op')) (he : e ∈ op'.keyed) :
    e ∈ op.keyed ∨ (∃ entry, c.l1.lookup e.1 = some entry ∧ e.2 ∈ entry.tools) ∨
      ∃ slug t, e.2 = McpTool.fill e.1 slug t ∧ m.Names c e.1 slug := by
  cases op with
  | fetch id =>
    rw [← (Prod.mk.inj (Option.some.inj h)).2] at he
    split at he
    · next slug hslug =>
      split at he
      · obtain ⟨u, hu, rfl⟩ := List.mem_map.mp he
        obtain ⟨t, -, rfl⟩ := List.mem_map.mp hu
        exact .inr (.inr ⟨slug, t, rfl, .inr (.inr hslug)⟩)
      · cases he
    · cases he
  | slug id tools =>
    obtain ⟨-, rfl⟩ := Prod.mk.inj (Option.some.inj h)
    refine .inl ?_
    simpa [keyed] using he
  | names id entered rest frame =>
    refine .inl ?_
    cases rest with
    | nil =>
      obtain ⟨-, rfl⟩ := Prod.mk.inj (Option.some.inj h)
      exact List.mem_append_right _ (GetAll.loaded_keyed he)
    | cons t rest =>
      obtain ⟨-, rfl⟩ := Prod.mk.inj (Option.some.inj h)
      simpa [keyed] using he
  | get id frame =>
    simp only [step] at h
    generalize (if answer.ok = true then answer.tools else []) = found at h
    split at h
    · obtain ⟨-, rfl⟩ := Prod.mk.inj (Option.some.inj h)
      cases frame with
      | none => cases he
      | some g => exact .inl he
    · obtain ⟨-, rfl⟩ := Prod.mk.inj (Option.some.inj h)
      rcases List.mem_append.mp he with he | he
      · obtain ⟨u, hu, rfl⟩ := List.mem_map.mp he
        obtain ⟨t, -, rfl⟩ := List.mem_map.mp hu
        refine .inr (.inr ⟨_, t, rfl, ?_⟩)
        cases hslug : c.serverSlugs id with
        | none => exact .inl rfl
        | some slug => exact .inr (.inl hslug)
      · exact .inl he
  | snapshot allowed =>
    simp only [step] at h
    split at h
    · cases h
    · split at h
      · obtain ⟨-, rfl⟩ := Prod.mk.inj (Option.some.inj h)
        cases he
      · obtain ⟨-, rfl⟩ := Prod.mk.inj (Option.some.inj h)
        exact .inr (.inl (mem_snapshot he))
  | liveness allowed entries =>
    obtain ⟨-, rfl⟩ := Prod.mk.inj (Option.some.inj h)
    exact .inl he
  | visit g =>
    obtain ⟨-, rfl⟩ := Prod.mk.inj (Option.some.inj h)
    exact .inl (GetAll.step_keyed he)
  | lock id =>
    obtain ⟨-, rfl⟩ := Prod.mk.inj (Option.some.inj h)
    split at he <;> cases he
  | drop id forget =>
    obtain ⟨-, rfl⟩ := Prod.mk.inj (Option.some.inj h)
    cases he
  | retract id rest forget =>
    cases rest with
    | nil | cons t rest =>
      obtain ⟨-, rfl⟩ := Prod.mk.inj (Option.some.inj h)
      cases he
  | resolve allowed name offer =>
    rw [← (Prod.mk.inj (Option.some.inj h)).2] at he
    split at he
    · cases he
    · split at he <;> cases he
  | define allowed id name offer =>
    obtain ⟨-, rfl⟩ := Prod.mk.inj (Option.some.inj h)
    split at he <;> cases he
  | returned allowed tools | executed allowed id rawName offer | unknown offer cached | refused
  | finished => cases h

theorem step_offers (h : op.step m c answer = some (effect, op')) (ht : t ∈ op'.offers) :
    t ∈ op.offers ∨
      (effect = .skip ∧ ∃ id entry, c.l1.lookup id = some entry ∧ t ∈ entry.tools) ∨
      ∃ id entered frame, op = .names id entered [] frame ∧ t ∈ entered := by
  cases op with
  | names id entered rest frame =>
    cases rest with
    | nil =>
      obtain ⟨-, rfl⟩ := Prod.mk.inj (Option.some.inj h)
      exact (GetAll.loaded_offers ht).imp_right fun ht => .inr ⟨id, entered, frame, rfl, ht⟩
    | cons u rest =>
      obtain ⟨-, rfl⟩ := Prod.mk.inj (Option.some.inj h)
      exact .inl ht
  | get id frame =>
    simp only [step] at h
    generalize (if answer.ok = true then answer.tools else []) = found at h
    split at h
    · obtain ⟨-, rfl⟩ := Prod.mk.inj (Option.some.inj h)
      cases frame with
      | none => cases ht
      | some g => exact .inl ht
    · obtain ⟨-, rfl⟩ := Prod.mk.inj (Option.some.inj h)
      exact .inl ht
  | snapshot allowed =>
    simp only [step] at h
    split at h
    · cases h
    · split at h
      · obtain ⟨-, rfl⟩ := Prod.mk.inj (Option.some.inj h)
        cases ht
      · obtain ⟨rfl, rfl⟩ := Prod.mk.inj (Option.some.inj h)
        obtain ⟨e, he, rfl⟩ := List.mem_map.mp ht
        obtain ⟨entry, hentry, hmem⟩ := mem_snapshot he
        exact .inr (.inl ⟨rfl, e.1, entry, hentry, hmem⟩)
  | liveness allowed entries =>
    obtain ⟨-, rfl⟩ := Prod.mk.inj (Option.some.inj h)
    exact .inl (by simpa [offers, GetAll.offers, GetAll.keyed] using ht)
  | visit g =>
    obtain ⟨-, rfl⟩ := Prod.mk.inj (Option.some.inj h)
    exact .inl (GetAll.step_offers ht)
  | resolve allowed name offer =>
    rw [← (Prod.mk.inj (Option.some.inj h)).2] at ht
    split at ht
    · cases ht
    · split at ht
      · cases ht
      · exact .inl ht
  | define allowed id name offer =>
    obtain ⟨-, rfl⟩ := Prod.mk.inj (Option.some.inj h)
    split at ht <;> cases ht
  | fetch id =>
    rw [← (Prod.mk.inj (Option.some.inj h)).2] at ht
    split at ht
    · split at ht <;> cases ht
    · cases ht
  | slug id tools =>
    obtain ⟨-, rfl⟩ := Prod.mk.inj (Option.some.inj h)
    cases ht
  | lock id =>
    obtain ⟨-, rfl⟩ := Prod.mk.inj (Option.some.inj h)
    split at ht <;> cases ht
  | drop id forget =>
    obtain ⟨-, rfl⟩ := Prod.mk.inj (Option.some.inj h)
    cases ht
  | retract id rest forget =>
    cases rest with
    | nil | cons u rest =>
      obtain ⟨-, rfl⟩ := Prod.mk.inj (Option.some.inj h)
      cases ht
  | returned allowed tools | executed allowed id rawName offer | unknown offer cached | refused
  | finished => cases h

/-- A slug that is noted comes from a tool of the server. -/
theorem step_slug {id : Uuid} {slug : String}
    (h : op.step m c answer = some (.insertSlug id slug, op')) :
    ∃ t, (id, t) ∈ op.keyed ∧ t.serverName = slug := by
  cases op with
  | slug held tools =>
    obtain ⟨heffect, -⟩ := Prod.mk.inj (Option.some.inj h)
    cases tools with
    | nil => cases heffect
    | cons t tools =>
      obtain ⟨rfl, rfl⟩ := Effect.insertSlug.inj heffect
      exact ⟨t, List.mem_map_of_mem (List.mem_cons_self ..), rfl⟩
  | names held entered rest frame =>
    cases rest <;> cases (Prod.mk.inj (Option.some.inj h)).1
  | retract held rest forget =>
    cases rest with
    | nil =>
      obtain ⟨heffect, -⟩ := Prod.mk.inj (Option.some.inj h)
      cases forget <;> cases heffect
    | cons t rest => cases (Prod.mk.inj (Option.some.inj h)).1
  | get held frame =>
    simp only [step] at h
    generalize (if answer.ok = true then answer.tools else []) = found at h
    split at h <;> cases (Prod.mk.inj (Option.some.inj h)).1
  | snapshot allowed =>
    simp only [step] at h
    split at h
    · cases h
    · split at h <;> cases (Prod.mk.inj (Option.some.inj h)).1
  | lock held | fetch held | drop held forget | liveness allowed entries | visit g
  | resolve allowed name offer | define allowed held name offer =>
    cases (Prod.mk.inj (Option.some.inj h)).1
  | returned allowed tools | executed allowed held rawName offer | unknown offer cached | refused
  | finished => cases h

end Op

namespace ToolCache

theorem started_keyed {a : Action} (h : c.started m a = some op) (he : e ∈ op.keyed) :
    ∃ slug t, e.2 = McpTool.fill e.1 slug t ∧ m.Names c e.1 slug := by
  cases a with
  | cacheFetchedTools id tools =>
    obtain ⟨slug, hslug, h⟩ := Option.bind_eq_some_iff.mp h
    rw [← Option.some.inj h] at he
    split at he
    · cases he
    · obtain ⟨u, hu, rfl⟩ := List.mem_map.mp he
      obtain ⟨t, -, rfl⟩ := List.mem_map.mp hu
      exact ⟨slug, t, rfl, .inr (.inr hslug)⟩
  | callOffered k i =>
    obtain ⟨op₀, -, h⟩ := Option.bind_eq_some_iff.mp h
    split at h
    · obtain ⟨t, -, h⟩ := Option.bind_eq_some_iff.mp h
      rw [← Option.some.inj h] at he
      cases he
    · cases h
  | tick ms | run k answer => cases h
  | refresh id | loadFromValkey id | invalidate id | removeServer id | getAll allowed
  | call allowed name =>
    rw [← Option.some.inj h] at he
    cases he

/-- A call that is begun is of a tool that was offered. -/
theorem started_offers {a : Action} (h : c.started m a = some op) (ht : t ∈ op.offers) :
    ∃ op₀ ∈ c.ops, t ∈ op₀.offers := by
  cases a with
  | callOffered k i =>
    obtain ⟨op₀, hop₀, h⟩ := Option.bind_eq_some_iff.mp h
    split at h
    · obtain ⟨u, hu, h⟩ := Option.bind_eq_some_iff.mp h
      rw [← Option.some.inj h] at ht
      obtain rfl : t = u := by simpa [Op.offers] using ht
      exact ⟨_, List.mem_of_getElem? hop₀, List.mem_of_getElem? hu⟩
    · cases h
  | cacheFetchedTools id tools =>
    obtain ⟨slug, -, h⟩ := Option.bind_eq_some_iff.mp h
    rw [← Option.some.inj h] at ht
    split at ht <;> cases ht
  | tick ms | run k answer => cases h
  | refresh id | loadFromValkey id | invalidate id | removeServer id | getAll allowed
  | call allowed name =>
    rw [← Option.some.inj h] at ht
    cases ht

/-! ## Tools of their servers -/

/-- Every tool that is stored or held for a server is one of it. -/
structure Filled (m : McpServers) (c : ToolCache) : Prop where
  slugs : ∀ id slug, c.serverSlugs id = some slug → slug = "" ∨ m.slugs.lookup id = some slug
  lists : ∀ id entry, c.l1.lookup id = some entry → ∀ t ∈ entry.tools, t.Of m id
  keyed : ∀ op ∈ c.ops, ∀ e ∈ op.keyed, e.2.Of m e.1
  offers : ∀ op ∈ c.ops, ∀ t ∈ op.offers, t.Genuine m

theorem filled_init (now : Millis) : (init now).Filled m where
  slugs := by simp [init]
  lists := by simp [init]
  keyed := by simp [init]
  offers := by simp [init]

namespace Filled

theorem fill (hc : c.Filled m) {id : Uuid} {slug : String} (h : m.Names c id slug) (t : McpTool) :
    (t.fill id slug).Of m id := by
  refine ⟨rfl, ?_⟩
  rcases h with rfl | h | h
  · exact .inl rfl
  · exact hc.slugs id slug h
  · exact .inr h

theorem of_keyed (hc : c.Filled m) (hop : op ∈ c.ops)
    (h : op.step m c answer = some (effect, op')) (he : e ∈ op'.keyed) : e.2.Of m e.1 := by
  rcases Op.step_keyed h he with he | ⟨entry, hentry, ht⟩ | ⟨slug, t, heq, hnames⟩
  · exact hc.keyed op hop e he
  · exact hc.lists e.1 entry hentry e.2 ht
  · rw [heq]
    exact hc.fill hnames t

theorem of_offers (hc : c.Filled m) (hop : op ∈ c.ops)
    (h : op.step m c answer = some (effect, op')) (ht : t ∈ op'.offers) : t.Genuine m := by
  rcases Op.step_offers h ht with ht | ⟨-, id, entry, hentry, ht⟩ | ⟨id, entered, frame, rfl, ht⟩
  · exact hc.offers op hop t ht
  · exact (hc.lists id entry hentry t ht).2
  · exact (hc.keyed _ hop (id, t) (by simpa [Op.keyed] using .inl ht)).2

theorem apply_lists (hc : c.Filled m) (hop : op ∈ c.ops)
    (h : op.step m c answer = some (effect, op')) (id : Uuid) (entry : CachedTools)
    (hentry : (c.apply effect).l1.lookup id = some entry) : ∀ t ∈ entry.tools, t.Of m id := by
  rcases Op.step_cases h with ⟨held, entered, u, rest, frame, rfl, rfl, -⟩ |
    ⟨held, entered, frame, rfl, rfl, -⟩ | ⟨held, forget, rfl, rfl, -⟩ |
    ⟨held, u, rest, forget, rfl, rfl, -⟩ | ⟨hquiet, -⟩
  · exact hc.lists id entry hentry
  · by_cases heq : id = held
    · subst heq
      obtain rfl : { tools := entered, fetchedAt := c.now } = entry :=
        Option.some.inj ((AList.lookup_insert c.l1).symm.trans hentry)
      intro t ht
      exact hc.keyed _ hop (id, t) (by simpa [Op.keyed] using .inl ht)
    · exact hc.lists id entry ((AList.lookup_insert_ne heq).symm.trans hentry)
  · by_cases heq : id = held
    · subst heq
      cases (AList.lookup_erase id c.l1).symm.trans hentry
    · exact hc.lists id entry ((AList.lookup_erase_ne heq).symm.trans hentry)
  · exact hc.lists id entry hentry
  · rw [(Effect.quiet_apply (c := c) hquiet).1] at hentry
    exact hc.lists id entry hentry

theorem apply_slugs (hc : c.Filled m) (hop : op ∈ c.ops)
    (h : op.step m c answer = some (effect, op')) (id : Uuid) (slug : String)
    (hslug : (c.apply effect).serverSlugs id = some slug) :
    slug = "" ∨ m.slugs.lookup id = some slug := by
  cases effect with
  | insertSlug held noted =>
    change Function.update c.serverSlugs held (some noted) id = some slug at hslug
    by_cases heq : id = held
    · rw [heq, Function.update_self] at hslug
      obtain ⟨t, ht, rfl⟩ := Op.step_slug h
      obtain ⟨rfl, hgenuine⟩ : t.serverId = held ∧ t.Genuine m := hc.keyed op hop _ ht
      rw [← Option.some.inj hslug, heq]
      exact hgenuine
    · rw [Function.update_of_ne heq] at hslug
      exact hc.slugs id slug hslug
  | removeSlug held =>
    change Function.update c.serverSlugs held none id = some slug at hslug
    by_cases heq : id = held
    · rw [heq, Function.update_self] at hslug
      cases hslug
    · rw [Function.update_of_ne heq] at hslug
      exact hc.slugs id slug hslug
  | skip | insertName name held | insertTools held tools | removeTools held | removeName name =>
    exact hc.slugs id slug hslug

theorem step (hc : c.Filled m) {a : Action} (h : c.step m a = some c') : c'.Filled m := by
  rcases step_start h with ⟨k, answer, rfl⟩ | ⟨hl1, -, hslugs, hops⟩
  · obtain ⟨op, effect, op', hk, hop, rfl⟩ := step_run h
    obtain ⟨others, hreplaced, -⟩ := advance_replaced hk op' []
    have hmem := hreplaced.task_mem
    refine ⟨hc.apply_slugs hmem hop, hc.apply_lists hmem hop, ?_, ?_⟩
    · exact hreplaced.forall_mem (fun x hx => hc.keyed x (hreplaced.other_mem_before hx))
        (fun e he => hc.of_keyed hmem hop he) (by simp)
    · exact hreplaced.forall_mem (fun x hx => hc.offers x (hreplaced.other_mem_before hx))
        (fun t ht => hc.of_offers hmem hop ht) (by simp)
  · refine ⟨by rw [hslugs]; exact hc.slugs, by rw [hl1]; exact hc.lists, ?_, ?_⟩
    · rcases hops with hops | ⟨op, hop, hops⟩
      · rw [hops]
        exact hc.keyed
      · rw [hops]
        intro x hx e he
        rcases List.mem_append.mp hx with hx | hx
        · exact hc.keyed x hx e he
        · obtain rfl := List.mem_singleton.mp hx
          obtain ⟨slug, t, heq, hnames⟩ := started_keyed hop he
          rw [heq]
          exact hc.fill hnames t
    · rcases hops with hops | ⟨op, hop, hops⟩
      · rw [hops]
        exact hc.offers
      · rw [hops]
        intro x hx t ht
        rcases List.mem_append.mp hx with hx | hx
        · exact hc.offers x hx t ht
        · obtain rfl := List.mem_singleton.mp hx
          obtain ⟨op₀, hop₀, ht⟩ := started_offers hop ht
          exact hc.offers op₀ hop₀ t ht

end Filled

/-! ## Offers -/

/-- The name of an offered tool leads to no other server. -/
def Kept (c : ToolCache) : Prop :=
  ∀ op ∈ c.ops, ∀ t ∈ op.offers, ∀ id, c.nameToServer t.namespacedName = some id → id = t.serverId

/-- A name is entered that no tool of another server was offered by; and a call whose tool is in no
list any more is of a tool with no underscore in its slug. -/
def keepsOffers (c : ToolCache) : Action → Bool
  | .run k _ => match c.ops[k]? with
    | some (.names id _ (t :: _) _) => c.ops.all fun op => op.offers.all fun u =>
        u.namespacedName ≠ t.namespacedName || u.serverId = id
    | some (.define _ _ name (some t)) =>
      (c.getToolRaw name).isSome || '_' ∉ t.serverName.toList
    | _ => true
  | _ => true

namespace Kept

theorem apply (hc : c.Kept) {k : ℕ} (hk : c.ops[k]? = some op)
    (hkeeps : c.keepsOffers (.run k answer) = true)
    (h : op.step m c answer = some (effect, op')) {x : Op} (hx : x ∈ c.ops) (ht : t ∈ x.offers)
    {id : Uuid} (hname : (c.apply effect).nameToServer t.namespacedName = some id) :
    id = t.serverId := by
  rcases Op.step_cases h with ⟨held, entered, u, rest, frame, rfl, rfl, -⟩ |
    ⟨held, entered, frame, rfl, rfl, -⟩ | ⟨held, forget, rfl, rfl, -⟩ |
    ⟨held, u, rest, forget, rfl, rfl, -⟩ | ⟨hquiet, -⟩
  · change Function.update c.nameToServer u.namespacedName (some held) t.namespacedName = some id
      at hname
    by_cases heq : t.namespacedName = u.namespacedName
    · rw [heq, Function.update_self] at hname
      simp only [keepsOffers, hk, List.all_eq_true] at hkeeps
      have hfree := hkeeps x hx t ht
      simp only [heq, ne_eq, not_true, decide_false, Bool.false_or, decide_eq_true_eq] at hfree
      rw [hfree, Option.some.inj hname]
    · rw [Function.update_of_ne heq] at hname
      exact hc x hx t ht id hname
  · exact hc x hx t ht id hname
  · exact hc x hx t ht id hname
  · change Function.update c.nameToServer u.namespacedName none t.namespacedName = some id at hname
    by_cases heq : t.namespacedName = u.namespacedName
    · rw [heq, Function.update_self] at hname
      cases hname
    · rw [Function.update_of_ne heq] at hname
      exact hc x hx t ht id hname
  · rw [(Effect.quiet_apply (c := c) hquiet).2] at hname
    exact hc x hx t ht id hname

theorem step (hc : c.Kept) (hfilled : c.Filled m) (hmapped : c.Mapped) {a : Action}
    (hnames : c.keepsNames a = true) (hkeeps : c.keepsOffers a = true)
    (h : c.step m a = some c') : c'.Kept := by
  rcases step_start h with ⟨k, answer, rfl⟩ | ⟨-, hmap, -, hops⟩
  · obtain ⟨op, effect, op', hk, hop, rfl⟩ := step_run h
    obtain ⟨others, hreplaced, -⟩ := advance_replaced hk op' []
    refine hreplaced.forall_mem (fun x hx t ht id hname =>
      hc.apply hk hkeeps hop (hreplaced.other_mem_before hx) ht hname) (fun t ht id hname => ?_)
      (by simp)
    rcases Op.step_offers hop ht with ht | ⟨rfl, held, entry, hentry, ht⟩ |
      ⟨held, entered, frame, rfl, ht⟩
    · exact hc.apply hk hkeeps hop hreplaced.task_mem ht hname
    · -- offered from a list that is stored
      have hcached : c.cachedBy held t.namespacedName = true :=
        cachedBy_iff.mpr ⟨entry, hentry, t, ht, rfl⟩
      have hid := Option.some.inj ((hmapped held _ hcached).symm.trans hname)
      rw [← hid, (hfilled.lists held entry hentry t ht).1]
    · -- offered from the list that is being stored, whose names are mapped
      obtain ⟨rfl, -⟩ := Prod.mk.inj (Option.some.inj hop)
      simp only [keepsNames, hk, List.all_eq_true, decide_eq_true_eq] at hnames
      have hid := Option.some.inj ((hnames t ht).symm.trans hname)
      have hof := hfilled.keyed _ hreplaced.task_mem (held, t) (by simpa [Op.keyed] using .inl ht)
      exact hid.symm.trans hof.1.symm
  · rcases hops with hops | ⟨op, hop, hops⟩
    · intro x hx t ht id hname
      rw [hops] at hx
      rw [hmap] at hname
      exact hc x hx t ht id hname
    · intro x hx t ht id hname
      rw [hops] at hx
      rw [hmap] at hname
      rcases List.mem_append.mp hx with hx | hx
      · exact hc x hx t ht id hname
      · obtain rfl := List.mem_singleton.mp hx
        obtain ⟨op₀, hop₀, ht⟩ := started_offers hop ht
        exact hc op₀ hop₀ t ht id hname

end Kept

/-! ## Calls -/

end ToolCache

/-- What is known of a call of an offered tool: it goes to the server the tool was offered for, under
the name the tool has there, and it is given up only when no list has the tool. -/
def Op.Right : Op → Prop
  | .resolve _ name offer => ∀ t, offer = some t → name = t.namespacedName
  | .define _ id name offer => ∀ t, offer = some t → name = t.namespacedName ∧ id = t.serverId
  | .executed _ id rawName offer => ∀ t, offer = some t → id = t.serverId ∧ rawName = t.name
  | .unknown offer cached => offer.isSome → cached = false
  | .lock _ | .fetch _ | .slug .. | .names .. | .get .. | .drop .. | .retract .. | .snapshot _
  | .liveness .. | .visit _ | .returned .. | .refused | .finished => True

theorem GetAll.push_right {n : ℕ} : (g.push n tools).Right := by
  simp only [push]
  split <;> trivial

theorem GetAll.step_right {now : Millis} {n : ℕ} : (g.step now n).Right := by
  obtain ⟨allowed, online, rest, found⟩ := g
  cases rest with
  | nil => trivial
  | cons entry rest =>
    simp only [step]
    split
    · trivial
    · split
      · trivial
      · split
        · trivial
        · exact push_right

namespace ToolCache

theorem resolve_right (hmapped : c.Mapped) (hkept : c.Kept)
    {allowed : Option (List Uuid)} {name : String} {offer : Option McpTool}
    (hmem : .resolve allowed name offer ∈ c.ops) (hright : (Op.resolve allowed name offer).Right)
    (h : (Op.resolve allowed name offer).step m c answer = some (effect, op')) : op'.Right := by
  rw [← (Prod.mk.inj (Option.some.inj h)).2]
  split
  · next hnone =>
    intro hsome
    obtain ⟨t, rfl⟩ := Option.isSome_iff_exists.mp hsome
    refine Bool.eq_false_iff.mpr fun hcached => ?_
    rw [Option.any_some] at hcached
    rw [serverIdOf, hmapped _ _ hcached] at hnone
    cases hnone
  · next id hid =>
    split
    · trivial
    · rintro t rfl
      have hname := hright t rfl
      refine ⟨hname, hkept _ hmem t (by simp [Op.offers]) id ?_⟩
      rw [← hname]
      exact hid

theorem define_right (hfilled : c.Filled m) (hkept : c.Kept) {k : ℕ}
    {allowed : Option (List Uuid)} {id : Uuid} {name : String} {offer : Option McpTool}
    (hk : c.ops[k]? = some (.define allowed id name offer))
    (hright : (Op.define allowed id name offer).Right)
    (hkeeps : c.keepsOffers (.run k answer) = true)
    (h : (Op.define allowed id name offer).step m c answer = some (effect, op')) : op'.Right := by
  rw [← (Prod.mk.inj (Option.some.inj h)).2]
  split
  · trivial
  · rintro t rfl
    have hmem := List.mem_of_getElem? hk
    obtain ⟨rfl, rfl⟩ := hright t rfl
    have hoffer : t ∈ (Op.define allowed t.serverId t.namespacedName (some t)).offers := by
      simp [Op.offers]
    refine ⟨rfl, ?_⟩
    cases hraw : c.getToolRaw t.namespacedName with
    | none =>
      have hslug : '_' ∉ t.serverName.toList := by
        simpa [keepsOffers, hk, hraw] using hkeeps
      exact rawToolName_namespacedName hslug
    | some u =>
      obtain ⟨id, hid, hrest⟩ := Option.bind_eq_some_iff.mp hraw
      obtain ⟨entry, hentry, hfind⟩ := Option.bind_eq_some_iff.mp hrest
      have hof := hfilled.lists id entry hentry u (List.mem_of_find?_eq_some hfind)
      have hname : u.namespacedName = t.namespacedName := by simpa using List.find?_some hfind
      have hserver := hkept _ hmem t hoffer id hid
      exact McpTool.name_inj hof.2 (hfilled.offers _ hmem t hoffer) (hof.1.trans hserver) hname

theorem step_right (hfilled : c.Filled m) (hmapped : c.Mapped) (hkept : c.Kept) {k : ℕ}
    (hk : c.ops[k]? = some op) (hright : op.Right) (hkeeps : c.keepsOffers (.run k answer) = true)
    (h : op.step m c answer = some (effect, op')) : op'.Right := by
  cases op with
  | resolve allowed name offer =>
    exact resolve_right hmapped hkept (List.mem_of_getElem? hk) hright h
  | define allowed id name offer => exact define_right hfilled hkept hk hright hkeeps h
  | names id entered rest frame =>
    cases rest with
    | nil =>
      rw [← (Prod.mk.inj (Option.some.inj h)).2]
      cases frame with
      | none => trivial
      | some g => exact GetAll.push_right
    | cons t rest =>
      rw [← (Prod.mk.inj (Option.some.inj h)).2]
      trivial
  | get id frame =>
    simp only [Op.step] at h
    generalize (if answer.ok = true then answer.tools else []) = found at h
    split at h
    · rw [← (Prod.mk.inj (Option.some.inj h)).2]
      cases frame <;> trivial
    · rw [← (Prod.mk.inj (Option.some.inj h)).2]
      trivial
  | snapshot allowed =>
    simp only [Op.step] at h
    split at h
    · cases h
    · split at h <;> (rw [← (Prod.mk.inj (Option.some.inj h)).2]; trivial)
  | visit g =>
    rw [← (Prod.mk.inj (Option.some.inj h)).2]
    exact GetAll.step_right
  | lock id =>
    rw [← (Prod.mk.inj (Option.some.inj h)).2]
    split <;> trivial
  | fetch id =>
    rw [← (Prod.mk.inj (Option.some.inj h)).2]
    split
    · split <;> trivial
    · trivial
  | retract id rest forget =>
    cases rest <;> (rw [← (Prod.mk.inj (Option.some.inj h)).2]; trivial)
  | slug id tools | drop id forget | liveness allowed entries =>
    rw [← (Prod.mk.inj (Option.some.inj h)).2]
    trivial
  | returned allowed tools | executed allowed id rawName offer | unknown offer cached | refused
  | finished => cases h

theorem started_right {a : Action} (h : c.started m a = some op) : op.Right := by
  cases a with
  | callOffered k i =>
    obtain ⟨op₀, -, h⟩ := Option.bind_eq_some_iff.mp h
    split at h
    · obtain ⟨u, -, h⟩ := Option.bind_eq_some_iff.mp h
      rw [← Option.some.inj h]
      intro t ht
      rw [Option.some.inj ht]
    · cases h
  | call allowed name =>
    rw [← Option.some.inj h]
    intro t ht
    cases ht
  | cacheFetchedTools id tools =>
    obtain ⟨slug, -, h⟩ := Option.bind_eq_some_iff.mp h
    rw [← Option.some.inj h]
    split <;> trivial
  | tick ms | run k answer => cases h
  | refresh id | loadFromValkey id | invalidate id | removeServer id | getAll allowed =>
    rw [← Option.some.inj h]
    trivial

/-- The names lead where they were offered for. -/
structure Dispatches (m : McpServers) (c : ToolCache) : Prop where
  filled : c.Filled m
  mapped : c.Mapped
  kept : c.Kept
  right : ∀ op ∈ c.ops, op.Right

theorem Dispatches.step (hc : c.Dispatches m) {a : Action} (hnames : c.keepsNames a = true)
    (hkeeps : c.keepsOffers a = true) (h : c.step m a = some c') : c'.Dispatches m := by
  refine ⟨hc.filled.step h, hc.mapped.step hnames h,
    hc.kept.step hc.filled hc.mapped hnames hkeeps h, ?_⟩
  rcases step_start h with ⟨k, answer, rfl⟩ | ⟨-, -, -, hops⟩
  · obtain ⟨op, effect, op', hk, hop, rfl⟩ := step_run h
    obtain ⟨others, hreplaced, -⟩ := advance_replaced hk op' []
    exact hreplaced.forall_mem (fun x hx => hc.right x (hreplaced.other_mem_before hx))
      (step_right hc.filled hc.mapped hc.kept hk (hc.right op hreplaced.task_mem) hkeeps hop)
      (by simp)
  · rcases hops with hops | ⟨op, hop, hops⟩
    · rw [hops]
      exact hc.right
    · rw [hops]
      intro x hx
      rcases List.mem_append.mp hx with hx | hx
      · exact hc.right x hx
      · obtain rfl := List.mem_singleton.mp hx
        exact started_right hop

/-- In a run that keeps the names of the lists and of the offers, a call of an offered tool that is
executed goes to its server, under its name, and one that finds no server is of a tool that the list
of its server no longer has. -/
theorem executed_as_offered {now : Millis}
    (hrun : Run (ToolCache.step m) (fun c a => (c.keepsNames a && c.keepsOffers a) = true)
      (init now) c) :
    (∀ allowed id rawName t, .executed allowed id rawName (some t) ∈ c.ops →
      id = t.serverId ∧ rawName = t.name) ∧
    ∀ t cached, .unknown (some t) cached ∈ c.ops → cached = false := by
  have hc : c.Dispatches m :=
    hrun.invariant (I := fun c => c.Dispatches m)
      ⟨filled_init now, mapped_init now, by simp [Kept, init], by simp [init]⟩
      fun _ _ _ _ hc hok hs =>
        hc.step (Bool.and_eq_true_iff.mp hok).1 (Bool.and_eq_true_iff.mp hok).2 hs
  exact ⟨fun _ _ _ t hmem => hc.right _ hmem t rfl, fun _ _ hmem => hc.right _ hmem rfl⟩

/-! ## Two servers with one name -/

/-- Slugs of which one goes on where the other ends. -/
def twoServers : McpServers where
  slugs := [(1, "a"), (2, "a_b")]
  slug_valid := by decide
  ids_nodup := by decide
  slugs_nodup := by decide
  maxTools := 32

/-- What was executed for an offered tool. -/
def ran : Op → Option (Uuid × String × McpTool)
  | .executed _ id rawName (some t) => some (id, rawName, t)
  | _ => none

theorem ran_eq_some {r : Uuid × String × McpTool} (h : ran op = some r) :
    ∃ allowed, op = .executed allowed r.1 r.2.1 (some r.2.2) := by
  cases op with
  | executed allowed id rawName offer =>
    cases offer with
    | none => cases h
    | some t =>
      obtain rfl := Option.some.inj h
      exact ⟨allowed, rfl⟩
  | _ => cases h

/-- Lists of two servers, a request that is offered all of their tools, and a call of the first. -/
def offerAndCall (tool tool' : String) : List Action :=
  [Action.cacheFetchedTools 1 [plainTool tool], Action.cacheFetchedTools 2 [plainTool tool']] ++
    steps [1, 2] 0 3 [] ++ steps [1, 2] 1 3 [] ++ [Action.getAll none] ++ steps [1, 2] 2 5 [] ++
    [Action.callOffered 2 0] ++ steps [1, 2] 3 2 []

theorem first_executed : ∃ c, Run (ToolCache.step twoServers)
    (fun c a => (c.keepsNames a && c.keepsOffers a) = true) (init 0) c ∧
      ∃ allowed rawName t, .executed allowed 1 rawName (some t) ∈ c.ops ∧
        1 = t.serverId ∧ rawName = t.name := by
  have hexec : (exec (ToolCache.step twoServers) (fun c a => c.keepsNames a && c.keepsOffers a)
      (init 0) (offerAndCall "x" "x")).any
      (fun c => c.ops.any fun op => (ran op).any fun r => r.1 = 1) = true := by
    decide +kernel
  obtain ⟨c, hrun, hc⟩ := Run.exists_of_exec (fun _ _ h => h) hexec
  obtain ⟨op, hop, hany⟩ := List.any_eq_true.mp hc
  obtain ⟨⟨id, rawName, t⟩, hran, hid⟩ := (Option.any_eq_true ..).mp hany
  obtain rfl : id = 1 := of_decide_eq_true hid
  obtain ⟨allowed, rfl⟩ := ran_eq_some hran
  exact ⟨c, hrun, allowed, rawName, t, hop, (executed_as_offered hrun).1 _ _ _ _ hop⟩

/-- The tool `b_c` of the server `a` is executed as `c` on the server `a_b`. -/
theorem executed_elsewhere : ∃ c, Run (ToolCache.step twoServers) (fun _ _ => True) (init 0) c ∧
    ∃ allowed rawName t, .executed allowed 2 rawName (some t) ∈ c.ops ∧
      t.serverId = 1 ∧ t.name = "b_c" ∧ rawName = "c" := by
  have hexec : (exec (ToolCache.step twoServers) (fun _ _ => true) (init 0)
      (offerAndCall "b_c" "c")).any
      (fun c => c.ops.any fun op => (ran op).any fun r =>
        r.1 = 2 ∧ r.2.2.serverId = 1 ∧ r.2.2.name = "b_c" ∧ r.2.1 = "c") = true := by
    decide +kernel
  obtain ⟨c, hrun, hc⟩ := @Run.exists_of_exec _ _ _ _ (fun _ _ => True) (fun _ _ _ => trivial) _ _ _
    hexec
  obtain ⟨op, hop, hany⟩ := List.any_eq_true.mp hc
  obtain ⟨⟨id, rawName, t⟩, hran, hr⟩ := (Option.any_eq_true ..).mp hany
  obtain ⟨rfl, hserver, hname, hraw⟩ := of_decide_eq_true hr
  obtain ⟨allowed, rfl⟩ := ran_eq_some hran
  exact ⟨c, hrun, allowed, rawName, t, hop, hserver, hname, hraw⟩

end ToolCache

end Steps

end Veronex.Mcp
