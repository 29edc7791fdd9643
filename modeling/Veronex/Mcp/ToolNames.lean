import Veronex.Mcp.ToolCache

/-! # The lists of tools and the reverse map

A server's list and the names of its tools are two maps that five operations write one after the
other. They agree once nothing is in progress, as long as a list that is stored lacks no name of the
one it replaces and no name is taken from a list that is stored.
-/
namespace Veronex.Mcp
set_option autoImplicit false
open Concurrency

section Effects
variable {m : McpServers} {c c' : ToolCache} {op op' : Op} {effect : Effect} {answer : Answer}

/-- What is neither in progress nor yet to begin. -/
def Op.idle : Op → Bool
  | .returned .. | .executed .. | .unknown .. | .refused | .finished => true
  | .lock _ | .fetch _ | .slug .. | .names .. | .get .. | .drop .. | .retract .. | .snapshot _
  | .liveness .. | .visit _ | .resolve .. | .define .. => false

/-- A name of a server that is in the reverse map while its list is not stored yet, or that is about
to be taken out. -/
def Op.covers (id : Uuid) (name : String) : Op → Prop
  | .names held entered _ _ => held = id ∧ ∃ t ∈ entered, t.namespacedName = name
  | .retract _ rest _ => ∃ t ∈ rest, t.namespacedName = name
  | .lock _ | .fetch _ | .slug .. | .get .. | .drop .. | .snapshot _ | .liveness .. | .visit _
  | .returned .. | .resolve .. | .define .. | .executed .. | .unknown .. | .refused
  | .finished => False

theorem Op.not_covers_of_idle (h : op.idle = true) {id : Uuid} {name : String} :
    ¬ op.covers id name := by
  cases op <;> simp_all [Op.idle, Op.covers]

/-- Whether the maps are left alone. -/
def Effect.quiet : Effect → Bool
  | .skip | .insertSlug .. | .removeSlug _ => true
  | .insertName .. | .insertTools .. | .removeTools _ | .removeName _ => false

/-- The steps that write to one of the two maps. -/
theorem Op.step_cases (h : op.step m c answer = some (effect, op')) :
    (∃ id entered t rest frame, op = .names id entered (t :: rest) frame ∧
      effect = .insertName t.namespacedName id ∧ op' = .names id (entered ++ [t]) rest frame) ∨
    (∃ id entered frame, op = .names id entered [] frame ∧ effect = .insertTools id entered ∧
      op' = GetAll.loaded m.maxTools entered frame) ∨
    (∃ id forget, op = .drop id forget ∧ effect = .removeTools id ∧
      op' = .retract id ((c.l1.lookup id).elim [] CachedTools.tools) forget) ∨
    (∃ id t rest forget, op = .retract id (t :: rest) forget ∧
      effect = .removeName t.namespacedName ∧ op' = .retract id rest forget) ∨
    (effect.quiet = true ∧ ∀ id name, ¬ op.covers id name) := by
  cases op with
  | names id entered rest frame =>
    cases rest with
    | nil =>
      obtain ⟨rfl, rfl⟩ := Prod.mk.inj (Option.some.inj h)
      exact .inr (.inl ⟨id, entered, frame, rfl, rfl, rfl⟩)
    | cons t rest =>
      obtain ⟨rfl, rfl⟩ := Prod.mk.inj (Option.some.inj h)
      exact .inl ⟨id, entered, t, rest, frame, rfl, rfl, rfl⟩
  | drop id forget =>
    obtain ⟨rfl, rfl⟩ := Prod.mk.inj (Option.some.inj h)
    exact .inr (.inr (.inl ⟨id, forget, rfl, rfl, rfl⟩))
  | retract id rest forget =>
    cases rest with
    | nil =>
      obtain ⟨rfl, -⟩ := Prod.mk.inj (Option.some.inj h)
      refine .inr (.inr (.inr (.inr ⟨?_, fun _ _ hcovers => ?_⟩)))
      · cases forget <;> rfl
      · simp [Op.covers] at hcovers
    | cons t rest =>
      obtain ⟨rfl, rfl⟩ := Prod.mk.inj (Option.some.inj h)
      exact .inr (.inr (.inr (.inl ⟨id, t, rest, forget, rfl, rfl, rfl⟩)))
  | slug id tools =>
    obtain ⟨rfl, -⟩ := Prod.mk.inj (Option.some.inj h)
    refine .inr (.inr (.inr (.inr ⟨?_, fun _ _ hcovers => hcovers⟩)))
    split <;> rfl
  | get id frame =>
    refine .inr (.inr (.inr (.inr ⟨?_, fun _ _ hcovers => hcovers⟩)))
    simp only [Op.step] at h
    grind [Effect.quiet]
  | snapshot allowed =>
    refine .inr (.inr (.inr (.inr ⟨?_, fun _ _ hcovers => hcovers⟩)))
    simp only [Op.step] at h
    grind [Effect.quiet]
  | lock id | fetch id | liveness allowed entries | visit g | resolve allowed name offer
  | define allowed id name offer =>
    obtain ⟨rfl, -⟩ := Prod.mk.inj (Option.some.inj h)
    exact .inr (.inr (.inr (.inr ⟨rfl, fun _ _ hcovers => hcovers⟩)))
  | returned allowed tools | executed allowed id rawName offer | unknown offer cached | refused
  | finished => cases h

theorem Effect.quiet_apply (h : effect.quiet = true) :
    (c.apply effect).l1 = c.l1 ∧ (c.apply effect).nameToServer = c.nameToServer := by
  cases effect with
  | skip | insertSlug id slug | removeSlug id => exact ⟨rfl, rfl⟩
  | insertName name id | insertTools id tools | removeTools id | removeName name => cases h

namespace ToolCache

theorem cachedBy_iff {id : Uuid} {name : String} : c.cachedBy id name = true ↔
    ∃ entry, c.l1.lookup id = some entry ∧ ∃ t ∈ entry.tools, t.namespacedName = name := by
  simp [cachedBy, Option.any_eq_true]

theorem cachedBy_congr (h : c'.l1 = c.l1) (id : Uuid) (name : String) :
    c'.cachedBy id name = c.cachedBy id name := by
  rw [cachedBy, cachedBy, h]

theorem cachedBy_insertTools (id id' : Uuid) (tools : List McpTool) (name : String) :
    (c.apply (.insertTools id tools)).cachedBy id' name =
      if id' = id then tools.any fun t => t.namespacedName = name else c.cachedBy id' name := by
  simp only [cachedBy, apply]
  split
  · next heq => rw [heq, AList.lookup_insert, Option.any_some]
  · next hne => rw [AList.lookup_insert_ne hne]

theorem cachedBy_removeTools (id id' : Uuid) (name : String) :
    (c.apply (.removeTools id)).cachedBy id' name =
      if id' = id then false else c.cachedBy id' name := by
  simp only [cachedBy, apply]
  split
  · next heq => rw [heq, AList.lookup_erase, Option.any_none]
  · next hne => rw [AList.lookup_erase_ne hne]

theorem step_run {k : ℕ} (h : c.step m (.run k answer) = some c') :
    ∃ op effect op', c.ops[k]? = some op ∧ op.step m c answer = some (effect, op') ∧
      c' = { c.apply effect with ops := advance c.ops k op' [] } := by
  obtain ⟨op, hop, h⟩ := Option.bind_eq_some_iff.mp h
  obtain ⟨s, hs, h⟩ := Option.bind_eq_some_iff.mp h
  exact ⟨op, s.1, s.2, hop, hs, (Option.some.inj h).symm⟩

/-- Any other step leaves the maps alone. -/
theorem step_start {a : Action} (h : c.step m a = some c') :
    (∃ k answer, a = .run k answer) ∨
      (c'.l1 = c.l1 ∧ c'.nameToServer = c.nameToServer ∧ c'.serverSlugs = c.serverSlugs ∧
        (c'.ops = c.ops ∨ ∃ op, c.started m a = some op ∧ c'.ops = c.ops ++ [op])) := by
  cases a with
  | run k answer => exact .inl ⟨k, answer, rfl⟩
  | tick ms =>
    obtain rfl := Option.some.inj h
    exact .inr ⟨rfl, rfl, rfl, .inl rfl⟩
  | refresh id | cacheFetchedTools id tools | loadFromValkey id | invalidate id | removeServer id
  | getAll allowed | call allowed name | callOffered k i =>
    simp only [step] at h
    obtain ⟨op, hop, h⟩ := Option.bind_eq_some_iff.mp h
    obtain rfl := Option.some.inj h
    exact .inr ⟨rfl, rfl, rfl, .inr ⟨op, hop, rfl⟩⟩

/-! ## The condition -/

/-- Whether a list other than that of the server has the name. -/
def cachedElsewhere (c : ToolCache) (id : Uuid) (name : String) : Bool :=
  c.l1.entries.any fun e => e.1 ≠ id && e.2.tools.any fun t => t.namespacedName = name

theorem cachedElsewhere_iff {id : Uuid} {name : String} :
    c.cachedElsewhere id name = true ↔ ∃ id', id' ≠ id ∧ c.cachedBy id' name = true := by
  simp only [cachedElsewhere, List.any_eq_true, Bool.and_eq_true, decide_eq_true_eq]
  constructor
  · rintro ⟨⟨id', entry⟩, hmem, hne, hname⟩
    refine ⟨id', hne, cachedBy_iff.mpr ⟨entry, AList.mem_lookup_iff.mpr hmem, ?_⟩⟩
    simpa using hname
  · rintro ⟨id', hne, hcached⟩
    obtain ⟨entry, hentry, hname⟩ := cachedBy_iff.mp hcached
    exact ⟨⟨id', entry⟩, AList.mem_lookup_iff.mp hentry, hne, by simpa using hname⟩

/-- A name is entered that is in no list of another server, a list is stored when all its names are
mapped, and a name is taken out that is in no list. -/
def keepsNames (c : ToolCache) : Action → Bool
  | .run k _ => match c.ops[k]? with
    | some (.names id _ (t :: _) _) => !c.cachedElsewhere id t.namespacedName
    | some (.names id entered [] _) =>
      entered.all fun t => c.nameToServer t.namespacedName = some id
    | some (.retract id (t :: _) _) =>
      !c.cachedElsewhere id t.namespacedName && !c.cachedBy id t.namespacedName
    | _ => true
  | _ => true

/-- Where a list is stored, no name is mapped that only the replaced list had. -/
def leavesNone (c : ToolCache) : Action → Bool
  | .run k _ => match c.ops[k]? with
    | some (.names id entered [] _) => (c.l1.lookup id).all fun old => old.tools.all fun t =>
        (entered.any fun u => u.namespacedName = t.namespacedName) ||
          c.nameToServer t.namespacedName ≠ some id
    | _ => true
  | _ => true

/-! ## From the lists to the map -/

/-- Every name of a list that is stored is mapped to its server. -/
def Mapped (c : ToolCache) : Prop :=
  ∀ id name, c.cachedBy id name = true → c.nameToServer name = some id

theorem mapped_init (now : Millis) : (init now).Mapped := by
  simp [Mapped, init, cachedBy]

namespace Mapped

theorem enter (hc : c.Mapped) {id : Uuid} {name : String} (hfree : c.cachedElsewhere id name = false) :
    (c.apply (.insertName name id)).Mapped := by
  intro id' name' hcached
  change c.cachedBy id' name' = true at hcached
  change Function.update c.nameToServer name (some id) name' = some id'
  by_cases hname : name' = name
  · have hid : id' = id := by
      by_contra hne
      have helse := cachedElsewhere_iff.mpr ⟨id', hne, hname ▸ hcached⟩
      rw [hfree] at helse
      cases helse
    rw [hname, hid, Function.update_self]
  · rw [Function.update_of_ne hname, hc id' name' hcached]

theorem store (hc : c.Mapped) {id : Uuid} {entered : List McpTool}
    (hmapped : ∀ t ∈ entered, c.nameToServer t.namespacedName = some id) :
    (c.apply (.insertTools id entered)).Mapped := by
  intro id' name hcached
  change c.nameToServer name = some id'
  rw [cachedBy_insertTools] at hcached
  split at hcached
  · next heq =>
    obtain ⟨t, ht, hname⟩ := List.any_eq_true.mp hcached
    rw [heq, ← of_decide_eq_true hname, hmapped t ht]
  · exact hc id' name hcached

theorem drop (hc : c.Mapped) (id : Uuid) : (c.apply (.removeTools id)).Mapped := by
  intro id' name hcached
  change c.nameToServer name = some id'
  rw [cachedBy_removeTools] at hcached
  split at hcached
  · cases hcached
  · exact hc id' name hcached

theorem retract (hc : c.Mapped) {name : String} (hfree : ∀ id, c.cachedBy id name = false) :
    (c.apply (.removeName name)).Mapped := by
  intro id name' hcached
  change c.cachedBy id name' = true at hcached
  change Function.update c.nameToServer name none name' = some id
  have hne : name' ≠ name := by
    rintro rfl
    rw [hfree id] at hcached
    cases hcached
  rw [Function.update_of_ne hne, hc id name' hcached]

theorem congr (hc : c.Mapped) (hl1 : c'.l1 = c.l1) (hmap : c'.nameToServer = c.nameToServer) :
    c'.Mapped := by
  intro id name hcached
  rw [cachedBy_congr hl1] at hcached
  rw [hmap, hc id name hcached]

theorem step (hc : c.Mapped) {a : Action} (hkeeps : c.keepsNames a = true)
    (h : c.step m a = some c') : c'.Mapped := by
  rcases step_start h with ⟨k, answer, rfl⟩ | ⟨hl1, hmap, -, -⟩
  · obtain ⟨op, effect, op', hk, hop, rfl⟩ := step_run h
    simp only [keepsNames, hk] at hkeeps
    rcases Op.step_cases hop with ⟨id, entered, t, rest, frame, rfl, rfl, -⟩ |
      ⟨id, entered, frame, rfl, rfl, -⟩ | ⟨id, forget, rfl, rfl, -⟩ |
      ⟨id, t, rest, forget, rfl, rfl, -⟩ | ⟨hquiet, -⟩
    · exact hc.enter (by simpa using hkeeps)
    · exact hc.store (by simpa using hkeeps)
    · exact hc.drop id
    · simp only [Bool.and_eq_true, Bool.not_eq_true'] at hkeeps
      refine hc.retract fun id' => ?_
      by_cases heq : id' = id
      · exact heq ▸ hkeeps.2
      · by_contra hcached
        have helse := cachedElsewhere_iff.mpr ⟨id', heq, Bool.eq_true_of_not_eq_false hcached⟩
        rw [hkeeps.1] at helse
        cases helse
    · obtain ⟨hl1, hmap⟩ := Effect.quiet_apply (c := c) hquiet
      exact hc.congr hl1 hmap
  · exact hc.congr hl1 hmap

end Mapped

/-! ## From the map to the lists -/

/-- Every name that is mapped is in the list of its server, or an operation in progress sees to it. -/
def Covered (c : ToolCache) : Prop :=
  ∀ name id, c.nameToServer name = some id →
    c.cachedBy id name = true ∨ ∃ op ∈ c.ops, op.covers id name

theorem covered_init (now : Millis) : (init now).Covered := by
  simp [Covered, init]

namespace Covered

theorem of_quiet (hc : c.Covered) (hl1 : c'.l1 = c.l1) (hmap : c'.nameToServer = c.nameToServer)
    (hops : ∀ id name, (∃ op ∈ c.ops, op.covers id name) → ∃ op ∈ c'.ops, op.covers id name) :
    c'.Covered := by
  intro name id hname
  rw [hmap] at hname
  rw [cachedBy_congr hl1]
  exact (hc name id hname).imp_right (hops id name)

/-- The name of a tool is entered. -/
theorem enter (hc : c.Covered) {id : Uuid} {entered rest others ops : List _} {t : McpTool}
    {frame : Option GetAll}
    (hops : Replaced c.ops (.names id entered (t :: rest) frame)
      (.names id (entered ++ [t]) rest frame) [] others ops) :
    ToolCache.Covered { c.apply (.insertName t.namespacedName id) with ops } := by
  intro name id' hname
  change Function.update c.nameToServer t.namespacedName (some id) name = some id' at hname
  change c.cachedBy id' name = true ∨ ∃ op ∈ ops, op.covers id' name
  by_cases heq : name = t.namespacedName
  · rw [heq, Function.update_self] at hname
    obtain rfl := Option.some.inj hname
    exact .inr ⟨_, hops.successor_mem, rfl, t, by simp, heq.symm⟩
  · rw [Function.update_of_ne heq] at hname
    refine (hc name id' hname).imp_right fun hcovers => hops.exists_mem hcovers ?_
    rintro ⟨rfl, u, hu, hname⟩
    exact ⟨rfl, u, List.mem_append_left _ hu, hname⟩

/-- A list is stored that has every name still mapped of the one it replaces. -/
theorem store (hc : c.Covered) {id : Uuid} {entered others ops : List _} {frame : Option GetAll}
    {op' : Op} (hold : ∀ old, c.l1.lookup id = some old → ∀ t ∈ old.tools,
      (∃ u ∈ entered, u.namespacedName = t.namespacedName) ∨
        c.nameToServer t.namespacedName ≠ some id)
    (hops : Replaced c.ops (.names id entered [] frame) op' [] others ops) :
    ToolCache.Covered { c.apply (.insertTools id entered) with ops } := by
  intro name id' hname
  change c.nameToServer name = some id' at hname
  change (c.apply (.insertTools id entered)).cachedBy id' name = true ∨ _
  rw [cachedBy_insertTools]
  rcases hc name id' hname with hcached | ⟨op, hop, hcov⟩
  · by_cases heq : id' = id
    · obtain ⟨old, hlookup, t, ht, rfl⟩ := cachedBy_iff.mp hcached
      rw [if_pos heq]
      rcases hold old (heq ▸ hlookup) t ht with ⟨u, hu, hsame⟩ | hgone
      · exact .inl (List.any_eq_true.mpr ⟨u, hu, decide_eq_true hsame⟩)
      · exact absurd (heq ▸ hname) hgone
    · rw [if_neg heq]
      exact .inl hcached
  · rcases hops.mem_before.mp hop with rfl | hother
    · obtain ⟨heq, t, ht, hsame⟩ := hcov
      rw [if_pos heq.symm]
      exact .inl (List.any_eq_true.mpr ⟨t, ht, decide_eq_true hsame⟩)
    · exact .inr ⟨op, hops.other_mem hother, hcov⟩

/-- A list is dropped, and its names are about to be taken out. -/
theorem drop (hc : c.Covered) {id : Uuid} {others ops : List _} {forget : Bool}
    (hops : Replaced c.ops (.drop id forget)
      (.retract id ((c.l1.lookup id).elim [] CachedTools.tools) forget) [] others ops) :
    ToolCache.Covered { c.apply (.removeTools id) with ops } := by
  intro name id' hname
  change c.nameToServer name = some id' at hname
  change (c.apply (.removeTools id)).cachedBy id' name = true ∨ ∃ op ∈ ops, op.covers id' name
  rw [cachedBy_removeTools]
  rcases hc name id' hname with hcached | hcovers
  · by_cases heq : id' = id
    · obtain ⟨old, hlookup, t, ht, hsame⟩ := cachedBy_iff.mp hcached
      have hrest : (c.l1.lookup id).elim [] CachedTools.tools = old.tools := by
        rw [← heq, hlookup]
        rfl
      exact .inr ⟨_, hops.successor_mem, t, hrest ▸ ht, hsame⟩
    · rw [if_neg heq]
      exact .inl hcached
  · exact .inr (hops.exists_mem hcovers fun h => h.elim)

theorem retract (hc : c.Covered) {id : Uuid} {rest others ops : List _} {t : McpTool}
    {forget : Bool}
    (hops : Replaced c.ops (.retract id (t :: rest) forget) (.retract id rest forget) [] others ops) :
    ToolCache.Covered { c.apply (.removeName t.namespacedName) with ops } := by
  intro name id' hname
  change Function.update c.nameToServer t.namespacedName none name = some id' at hname
  change c.cachedBy id' name = true ∨ ∃ op ∈ ops, op.covers id' name
  by_cases heq : name = t.namespacedName
  · rw [heq, Function.update_self] at hname
    cases hname
  · rw [Function.update_of_ne heq] at hname
    refine (hc name id' hname).imp_right fun hcovers => hops.exists_mem hcovers ?_
    rintro ⟨u, hu, hname⟩
    rcases List.mem_cons.mp hu with rfl | hu
    · exact absurd hname.symm heq
    · exact ⟨u, hu, hname⟩

theorem step (hc : c.Covered) {a : Action} (hleaves : c.leavesNone a = true)
    (h : c.step m a = some c') : c'.Covered := by
  rcases step_start h with ⟨k, answer, rfl⟩ | ⟨hl1, hmap, -, hops⟩
  · obtain ⟨op, effect, op', hk, hop, rfl⟩ := step_run h
    obtain ⟨others, hreplaced, -⟩ := advance_replaced hk op' []
    simp only [leavesNone, hk] at hleaves
    rcases Op.step_cases hop with ⟨id, entered, t, rest, frame, rfl, rfl, rfl⟩ |
      ⟨id, entered, frame, rfl, rfl, -⟩ | ⟨id, forget, rfl, rfl, rfl⟩ |
      ⟨id, t, rest, forget, rfl, rfl, rfl⟩ | ⟨hquiet, hnone⟩
    · exact hc.enter hreplaced
    · simp only [List.all_eq_true, decide_eq_true_eq, Option.all_eq_true, Bool.or_eq_true,
        List.any_eq_true] at hleaves
      exact hc.store hleaves hreplaced
    · exact hc.drop hreplaced
    · exact hc.retract hreplaced
    · obtain ⟨hl1, hmap⟩ := Effect.quiet_apply (c := c) hquiet
      exact hc.of_quiet hl1 hmap fun id name hcovers =>
        hreplaced.exists_mem hcovers fun hcov => absurd hcov (hnone id name)
  · refine hc.of_quiet hl1 hmap fun id name hcovers => ?_
    rcases hops with hops | ⟨op, -, hops⟩
    · rwa [hops]
    · obtain ⟨op', hop', hcov⟩ := hcovers
      exact ⟨op', by rw [hops]; exact List.mem_append_left _ hop', hcov⟩

end Covered

/-- In a run that keeps the names of the lists and leaves none behind, the reverse map has exactly
the names of the lists whenever nothing is in progress. -/
theorem nameToServer_iff {now : Millis}
    (hrun : Run (ToolCache.step m) (fun c a => (c.keepsNames a && c.leavesNone a) = true) (init now) c)
    (hidle : ∀ op ∈ c.ops, op.idle = true) (name : String) (id : Uuid) :
    c.nameToServer name = some id ↔
      ∃ entry, c.l1.lookup id = some entry ∧ ∃ t ∈ entry.tools, t.namespacedName = name := by
  have hc : c.Mapped ∧ c.Covered :=
    hrun.invariant (I := fun c => c.Mapped ∧ c.Covered) ⟨mapped_init now, covered_init now⟩
      fun _ _ _ _ hc hok hs =>
        ⟨hc.1.step (Bool.and_eq_true_iff.mp hok).1 hs, hc.2.step (Bool.and_eq_true_iff.mp hok).2 hs⟩
  rw [← cachedBy_iff]
  refine ⟨fun hname => ?_, hc.1 id name⟩
  rcases hc.2 name id hname with hcached | ⟨op, hop, hcovers⟩
  · exact hcached
  · exact absurd hcovers (Op.not_covers_of_idle (hidle op hop))

/-! ## A tool that a server no longer has -/

/-- One server. -/
def oneServer : McpServers where
  slugs := [(1, "a")]
  slug_valid := by decide
  ids_nodup := by decide
  slugs_nodup := by decide
  maxTools := 32

def plainTool (name : String) : McpTool :=
  { name, description := "", inputSchema := .null, readOnlyHint := false, idempotentHint := false
    serverId := 0, serverName := "" }

/-- A call is taken through its steps, all of which succeed; a server answers by the tools, and the
servers `ids` have lists and are alive. -/
def steps (ids : List Uuid) (k n : ℕ) (tools : List McpTool) : List Action :=
  List.replicate n (.run k { ok := true, tools, order := ids, alive := ids.map fun _ => true })

theorem refreshed_agrees : ∃ c, Run (ToolCache.step oneServer)
    (fun c a => (c.keepsNames a && c.leavesNone a) = true) (init 0) c ∧
      c.nameToServer "mcp_a_x" = some 1 ∧
      ∃ entry, c.l1.lookup 1 = some entry ∧ ∃ t ∈ entry.tools, t.namespacedName = "mcp_a_x" := by
  have hexec : (exec (ToolCache.step oneServer) (fun c a => c.keepsNames a && c.leavesNone a) (init 0)
      (.flatten [[.refresh 1], steps [1] 0 5 [plainTool "x"], [.refresh 1],
        steps [1] 1 6 [plainTool "x", plainTool "y"]])).any
      (fun c => c.nameToServer "mcp_a_x" = some 1 ∧ ∀ op ∈ c.ops, op.idle = true) = true := by
    decide +kernel
  obtain ⟨c, hrun, hc⟩ := Run.exists_of_exec (fun _ _ h => h) hexec
  obtain ⟨hname, hidle⟩ := of_decide_eq_true hc
  exact ⟨c, hrun, hname, (nameToServer_iff hrun hidle _ _).mp hname⟩

/-- After a refresh that no longer finds the tool, its name still leads to the server. -/
theorem dropped_tool_resolves : ∃ c, Run (ToolCache.step oneServer) (fun _ _ => True) (init 0) c ∧
    (∀ op ∈ c.ops, op.idle = true) ∧ c.nameToServer "mcp_a_x" = some 1 ∧
      ∃ entry, c.l1.lookup 1 = some entry ∧ ∀ t ∈ entry.tools, t.namespacedName ≠ "mcp_a_x" := by
  have hexec : (exec (ToolCache.step oneServer) (fun _ _ => true) (init 0)
      (.flatten [[.refresh 1], steps [1] 0 5 [plainTool "x"], [.refresh 1],
        steps [1] 1 5 [plainTool "y"]])).any
      (fun c => (c.nameToServer "mcp_a_x" = some 1 ∧ ∀ op ∈ c.ops, op.idle = true) ∧
        (c.l1.lookup 1).any fun entry => entry.tools.all fun t =>
          t.namespacedName ≠ "mcp_a_x") = true := by
    decide +kernel
  obtain ⟨c, hrun, hc⟩ := @Run.exists_of_exec _ _ _ _ (fun _ _ => True) (fun _ _ _ => trivial) _ _ _
    hexec
  obtain ⟨⟨hname, hidle⟩, hlist⟩ := of_decide_eq_true hc
  obtain ⟨entry, hentry, hnone⟩ := (Option.any_eq_true ..).mp hlist
  refine ⟨c, hrun, hidle, hname, entry, hentry, fun t ht => ?_⟩
  exact of_decide_eq_true (List.all_eq_true.mp hnone t ht)

end ToolCache

end Effects

end Veronex.Mcp
