import Veronex.Persistence.ProviderRegistry

/-! # The keys of the providers

`Sound` is what holds of the rows and of the operations between any two statements, when all
instances have the same master key. `exact` stands for runs in which nobody sets the key of a provider
while another operation holds an older one.

`registry_keeps`: the two halves, for the runs.
-/
namespace Veronex.ProviderRegistry
set_option autoImplicit false
open Concurrency

/-! ## What was set last -/

section LastOf
variable {V : Type} {id id' : Uuid} {v : V} {sets : List (Uuid × V)}

theorem lastOf_concat_self : lastOf id (sets ++ [(id, v)]) = some v := by
  simp [lastOf]

theorem lastOf_concat_of_ne (h : id' ≠ id) : lastOf id (sets ++ [(id', v)]) = lastOf id sets := by
  simp [lastOf, h]

theorem lastOf_of_unique (hmem : (id, v) ∈ sets) (hunique : ∀ v', (id, v') ∈ sets → v' = v) :
    lastOf id sets = some v := by
  cases hfound : sets.reverse.find? fun s => decide (s.1 = id) with
  | none =>
    have hnone := List.find?_eq_none.mp hfound (id, v) (List.mem_reverse.mpr hmem)
    exact absurd (decide_eq_true rfl) hnone
  | some s =>
    have hs : s ∈ sets := List.mem_reverse.mp (List.mem_of_find?_eq_some hfound)
    have hid : s.1 = id := by simpa using List.find?_some hfound
    rw [lastOf, hfound, Option.map_some, hunique s.2 (hid ▸ hs)]

end LastOf

section Tables
variable {id : Uuid} {f : LlmProvider → LlmProvider} {table : List LlmProvider} {row : LlmProvider}

theorem mem_modify (h : row ∈ modify id f table) :
    (row ∈ table ∧ row.id ≠ id) ∨ ∃ old ∈ table, old.id = id ∧ row = f old := by
  obtain ⟨old, hold, heq⟩ := List.mem_map.mp h
  by_cases hid : old.id = id
  · rw [if_pos hid] at heq
    exact Or.inr ⟨old, hold, hid, heq.symm⟩
  · rw [if_neg hid] at heq
    rw [← heq]
    exact Or.inl ⟨hold, hid⟩

theorem mem_select {q : Query} (h : row ∈ q.select table) : row ∈ table := by
  have hsorted : ∀ {rows : List LlmProvider}, row ∈ byRegistration rows → row ∈ rows := fun hrow =>
    (List.mem_insertionSort _).mp hrow
  cases q with
  | listAll => exact hsorted (List.mem_of_mem_take h)
  | listActive => exact List.mem_of_mem_filter (hsorted (List.mem_of_mem_take h))
  | get id => exact List.mem_of_mem_filter (List.mem_of_mem_take h)
  | listPage matching limit offset =>
    exact List.mem_of_mem_filter (hsorted (List.mem_of_mem_drop (List.mem_of_mem_take h)))

end Tables

/-! ## The invariant -/

variable {c : Crypto} {acceptsUrl : String → Bool} {masterKey : c.Key} {found : List LlmProvider}
  {exact : Prop} {w w' : World c.Key}

/-- The key was set for the provider, and last when `exact`. -/
def IsKey (exact : Prop) (sets : List (Uuid × String)) (id : Uuid) (key : String) : Prop :=
  (id, key) ∈ sets ∧ (exact → lastOf id sets = some key)

namespace Task

/-- The operation would write a key of this provider that it has read. -/
def Holds (id : Uuid) : Task c.Key → Prop
  | .reEncrypt _ legacy providers next =>
    (∃ key, (id, key) ∈ legacy) ∨
      ∃ req, next = .update req ∧ req.newKey = none ∧ ∃ p ∈ providers, p.id = id
  | .update _ p newKey => newKey = none ∧ p.id = id
  | _ => False

/-- What an operation carries: keys that it has read, or the key of its request. -/
def Sound (exact : Prop) (masterKey : c.Key) (sets : List (Uuid × String)) (nextId : Uuid) :
    Task c.Key → Prop
  | .reEncrypt key legacy providers next => key = masterKey ∧
    (∀ e ∈ legacy, IsKey exact sets e.1 e.2) ∧
      ∀ p ∈ providers, p.id < nextId ∧ ∀ key, p.apiKeyEncrypted = some key → (p.id, key) ∈ sets ∧
        (exact → ∀ req, next = .update req → req.newKey = none → lastOf p.id sets = some key)
  | .update key p newKey => key = masterKey ∧ p.id < nextId ∧
    (∀ key, newKey = some key → p.apiKeyEncrypted = some key) ∧
      (newKey = none → ∀ key, p.apiKeyEncrypted = some key → IsKey exact sets p.id key)
  | _ => True

end Task

structure Sound (exact : Prop) (masterKey : c.Key) (found : List LlmProvider) (w : World c.Key) :
    Prop where
  keys : ∀ row ∈ w.table, ∀ raw, row.apiKeyEncrypted = some raw →
    IsKey exact w.sets row.id (c.plain masterKey raw)
  kept : ∀ row ∈ w.table, row.apiKeyEncrypted = none → ∀ key, (row.id, key) ∉ w.sets
  stored : ∀ row ∈ w.table, ∀ raw, row.apiKeyEncrypted = some raw →
    (c.decrypt masterKey raw).isSome ∨ ∃ r ∈ found, r.id = row.id ∧ r.apiKeyEncrypted = some raw
  status : ∀ row ∈ w.table, lastOf row.id w.statuses = some row.status
  rowIds : ∀ row ∈ w.table, row.id < w.nextId
  setIds : ∀ s ∈ w.sets, s.1 < w.nextId
  tasks : ∀ t ∈ w.tasks, t.Sound exact masterKey w.sets w.nextId
  given : ∀ g ∈ w.given, g ∈ w.sets

/-- All instances have the same master key. -/
def Shared (masterKey : c.Key) : Act c.Key → Prop
  | .register key _ _ | .query key _ | .request key _ _ => key = masterKey
  | _ => True

/-- No key is set while another operation holds one of the same provider. -/
def Alone (w : World c.Key) : Act c.Key → Prop
  | .statement k _ _ => ∀ key p newKey, w.tasks[k]? = some (.update key p (some newKey)) →
    ∀ l t, l ≠ k → w.tasks[l]? = some t → ¬ t.Holds p.id
  | _ => True

/-! ## Keys that are set -/

variable {sets : List (Uuid × String)} {id id' nextId : Uuid} {key v : String}

theorem IsKey.self : IsKey exact (sets ++ [(id, v)]) id v :=
  ⟨List.mem_append_right _ (List.mem_singleton_self _), fun _ => lastOf_concat_self⟩

theorem IsKey.concat (h : IsKey exact sets id key) (hne : exact → id' ≠ id) :
    IsKey exact (sets ++ [(id', v)]) id key := by
  refine ⟨List.mem_append_left _ h.1, fun hexact => ?_⟩
  rw [lastOf_concat_of_ne (hne hexact)]
  exact h.2 hexact

theorem mem_setting {new : Option String} {s : Uuid × String} (h : s ∈ setting id new) :
    s.1 = id ∧ new = some s.2 := by
  obtain ⟨key, hnew, rfl⟩ := Option.map_eq_some_iff.mp (Option.mem_toList.mp h)
  exact ⟨rfl, hnew⟩

theorem IsKey.setting {new : Option String} (h : IsKey exact sets id key)
    (hne : exact → new ≠ none → id' ≠ id) :
    IsKey exact (sets ++ ProviderRegistry.setting id' new) id key := by
  cases new with
  | none => exact (List.append_nil sets).symm ▸ h
  | some v => exact h.concat fun hexact => hne hexact (Option.some_ne_none v)

namespace Task
variable {t : Task c.Key}

theorem Sound.concat (h : t.Sound exact masterKey sets nextId) (hold : exact → ¬ t.Holds id') :
    t.Sound exact masterKey (sets ++ [(id', v)]) nextId := by
  cases t with
  | reEncrypt k legacy providers next =>
    obtain ⟨hkey, hlegacy, hproviders⟩ := h
    refine ⟨hkey, fun e he => (hlegacy e he).concat fun hexact heq => ?_, fun p hp => ?_⟩
    · exact hold hexact (Or.inl ⟨e.2, heq ▸ he⟩)
    · obtain ⟨hid, hread⟩ := hproviders p hp
      refine ⟨hid, fun key hpkey => ?_⟩
      obtain ⟨hmem, hlast⟩ := hread key hpkey
      refine ⟨List.mem_append_left _ hmem, fun hexact req hreq hnone => ?_⟩
      have hne : id' ≠ p.id := fun heq => hold hexact (Or.inr ⟨req, hreq, hnone, p, hp, heq.symm⟩)
      rw [lastOf_concat_of_ne hne]
      exact hlast hexact req hreq hnone
  | update k p newKey =>
    obtain ⟨hkey, hid, hnew, hread⟩ := h
    refine ⟨hkey, hid, hnew, fun hnone key hpkey => (hread hnone key hpkey).concat fun hexact heq => ?_⟩
    exact hold hexact ⟨hnone, heq.symm⟩
  | delete id => exact h
  | done => exact h

theorem Sound.setting {new : Option String} (h : t.Sound exact masterKey sets nextId)
    (hold : exact → new ≠ none → ¬ t.Holds id') :
    t.Sound exact masterKey (sets ++ ProviderRegistry.setting id' new) nextId := by
  cases new with
  | none => exact (List.append_nil sets).symm ▸ h
  | some v => exact h.concat fun hexact => hold hexact (Option.some_ne_none v)

theorem Sound.mono {nextId' : Uuid} (h : t.Sound exact masterKey sets nextId) (hle : nextId ≤ nextId') :
    t.Sound exact masterKey sets nextId' := by
  cases t with
  | reEncrypt k legacy providers next =>
    obtain ⟨hkey, hlegacy, hproviders⟩ := h
    exact ⟨hkey, hlegacy, fun p hp => ⟨Nat.lt_of_lt_of_le (hproviders p hp).1 hle, (hproviders p hp).2⟩⟩
  | update k p newKey => exact ⟨h.1, Nat.lt_of_lt_of_le h.2.1 hle, h.2.2⟩
  | delete id => exact h
  | done => exact h

theorem Sound.not_holds (h : t.Sound exact masterKey sets nextId) (hsets : ∀ s ∈ sets, s.1 < nextId) :
    ¬ t.Holds nextId := by
  cases t with
  | reEncrypt k legacy providers next =>
    rintro (⟨key, hmem⟩ | ⟨-, -, -, p, hp, heq⟩)
    · exact Nat.lt_irrefl _ (hsets _ (h.2.1 _ hmem).1)
    · exact Nat.lt_irrefl _ (heq ▸ (h.2.2 p hp).1)
  | update k p newKey =>
    rintro ⟨-, heq⟩
    exact Nat.lt_irrefl _ (heq ▸ h.2.1)
  | delete id => exact not_false
  | done => exact not_false

end Task

theorem plain_of_legacy {raw : String} (h : (c.decryptOrLegacy masterKey raw).2 = true) :
    c.plain masterKey raw = raw := by
  unfold Crypto.plain Crypto.decryptOrLegacy
  unfold Crypto.decryptOrLegacy at h
  cases hdecrypt : c.decrypt masterKey raw with
  | none => rfl
  | some plaintext =>
    rw [hdecrypt] at h
    cases h

/-! ## The statements -/

namespace Sound

theorem read {q : Query} {next : Next} (h : Sound exact masterKey found w) :
    Sound exact masterKey found (w.read c masterKey q next) := by
  refine { h with tasks := fun t ht => ?_ }
  rcases List.mem_append.mp ht with ht | ht
  · exact h.tasks t ht
  · rw [List.mem_singleton.mp ht]
    refine ⟨rfl, fun e he => ?_, fun p hp => ?_⟩
    · obtain ⟨row, hrow, hlegacy⟩ := List.mem_filterMap.mp he
      obtain ⟨raw, hraw, rfl⟩ := Option.map_eq_some_iff.mp hlegacy
      obtain ⟨hkey, hneeds⟩ := Option.filter_eq_some_iff.mp hraw
      have hset := h.keys row (mem_select hrow) raw hkey
      rwa [plain_of_legacy hneeds] at hset
    · obtain ⟨row, hrow, rfl⟩ := List.mem_map.mp hp
      refine ⟨h.rowIds row (mem_select hrow), fun key hkey => ?_⟩
      obtain ⟨raw, hraw, rfl⟩ := Option.map_eq_some_iff.mp hkey
      have hset := h.keys row (mem_select hrow) raw hraw
      exact ⟨hset.1, fun hexact _ _ _ => hset.2 hexact⟩

theorem register {p : LlmProvider} {nonce : Nonce} (h : Sound exact masterKey found w)
    (hs : w.step c acceptsUrl (.register masterKey p nonce) = some w') :
    Sound exact masterKey found w' := by
  cases hs
  have hne : ∀ row ∈ w.table, w.nextId ≠ row.id := fun row hrow heq =>
    Nat.lt_irrefl _ (heq ▸ h.rowIds row hrow)
  constructor
  case keys =>
    intro row hrow raw hraw
    rcases List.mem_append.mp hrow with hrow | hrow
    · exact (h.keys row hrow raw hraw).setting fun _ _ => hne row hrow
    · rw [List.mem_singleton.mp hrow] at hraw ⊢
      obtain ⟨key, hkey, rfl⟩ := Option.map_eq_some_iff.mp hraw
      rw [c.plain_encrypt, hkey]
      exact IsKey.self
  case kept =>
    intro row hrow hnone key hmem
    rcases List.mem_append.mp hrow with hrow | hrow
    · rcases List.mem_append.mp hmem with hmem | hmem
      · exact h.kept row hrow hnone key hmem
      · exact hne row hrow (mem_setting hmem).1.symm
    · rw [List.mem_singleton.mp hrow] at hnone hmem
      have hkey : p.apiKeyEncrypted = none := Option.map_eq_none_iff.mp hnone
      rcases List.mem_append.mp hmem with hmem | hmem
      · exact Nat.lt_irrefl _ (h.setIds _ hmem)
      · cases hkey.symm.trans (mem_setting hmem).2
  case stored =>
    intro row hrow raw hraw
    rcases List.mem_append.mp hrow with hrow | hrow
    · exact h.stored row hrow raw hraw
    · rw [List.mem_singleton.mp hrow] at hraw
      obtain ⟨key, -, rfl⟩ := Option.map_eq_some_iff.mp hraw
      exact Or.inl (by rw [c.decrypt_encrypt]; rfl)
  case status =>
    intro row hrow
    rcases List.mem_append.mp hrow with hrow | hrow
    · rw [lastOf_concat_of_ne (hne row hrow)]
      exact h.status row hrow
    · rw [List.mem_singleton.mp hrow]
      exact lastOf_concat_self
  case rowIds =>
    intro row hrow
    rcases List.mem_append.mp hrow with hrow | hrow
    · exact Nat.lt_succ_of_lt (h.rowIds row hrow)
    · rw [List.mem_singleton.mp hrow]
      exact Nat.lt_succ_self _
  case setIds =>
    intro s hmem
    rcases List.mem_append.mp hmem with hmem | hmem
    · exact Nat.lt_succ_of_lt (h.setIds s hmem)
    · rw [(mem_setting hmem).1]
      exact Nat.lt_succ_self _
  case tasks =>
    intro t ht
    have hold := (h.tasks t ht).not_holds h.setIds
    exact ((h.tasks t ht).mono (Nat.le_succ _)).setting fun _ _ => hold
  case given => exact fun g hg => List.mem_append_left _ (h.given g hg)

theorem updateStatus {status : LlmProviderStatus} (h : Sound exact masterKey found w)
    (hs : w.step c acceptsUrl (.updateStatus id status) = some w') : Sound exact masterKey found w' := by
  cases hs
  have hsame : ∀ row ∈ modify id (fun row => { row with status := status }) w.table,
      ∃ old ∈ w.table, old.id = row.id ∧ old.apiKeyEncrypted = row.apiKeyEncrypted := by
    intro row hrow
    rcases mem_modify hrow with ⟨hold, -⟩ | ⟨old, hold, -, rfl⟩
    · exact ⟨row, hold, rfl, rfl⟩
    · exact ⟨old, hold, rfl, rfl⟩
  constructor
  case keys =>
    intro row hrow raw hraw
    obtain ⟨old, hold, hid, hkey⟩ := hsame row hrow
    rw [← hid]
    exact h.keys old hold raw (hkey.trans hraw)
  case kept =>
    intro row hrow hnone key
    obtain ⟨old, hold, hid, hkey⟩ := hsame row hrow
    rw [← hid]
    exact h.kept old hold (hkey.trans hnone) key
  case stored =>
    intro row hrow raw hraw
    obtain ⟨old, hold, hid, hkey⟩ := hsame row hrow
    rw [← hid]
    exact h.stored old hold raw (hkey.trans hraw)
  case status =>
    intro row hrow
    rcases mem_modify hrow with ⟨hold, hne⟩ | ⟨old, hold, hid, rfl⟩
    · rw [lastOf_concat_of_ne hne.symm]
      exact h.status row hold
    · subst hid
      exact lastOf_concat_self
  case rowIds =>
    intro row hrow
    obtain ⟨old, hold, hid, -⟩ := hsame row hrow
    rw [← hid]
    exact h.rowIds old hold
  case setIds => exact h.setIds
  case tasks => exact h.tasks
  case given => exact h.given

/-- A statement that writes no key and of which `t` becomes `t'`. -/
theorem moved {k : ℕ} {t t' : Task c.Key} (h : Sound exact masterKey found w)
    (ht : w.tasks[k]? = some t) (ht' : t'.Sound exact masterKey w.sets w.nextId) :
    Sound exact masterKey found { w with tasks := advance w.tasks k t' [] } := by
  obtain ⟨others, hrep, -⟩ := advance_replaced ht t' []
  exact { h with tasks := hrep.forall_mem (fun x hx => h.tasks x (hrep.other_mem_before hx)) ht' (by simp) }

theorem reEncrypted {nonce : Nonce} (h : Sound exact masterKey found w) (hkey : IsKey exact w.sets id key) :
    Sound exact masterKey found { w with table := modify id (fun row =>
      { row with apiKeyEncrypted := some (c.encrypt masterKey nonce key) }) w.table } := by
  constructor
  case keys =>
    intro row hrow raw hraw
    rcases mem_modify hrow with ⟨hold, -⟩ | ⟨old, hold, rfl, rfl⟩
    · exact h.keys row hold raw hraw
    · cases hraw
      rw [c.plain_encrypt]
      exact hkey
  case kept =>
    intro row hrow hnone
    rcases mem_modify hrow with ⟨hold, -⟩ | ⟨old, -, -, rfl⟩
    · exact h.kept row hold hnone
    · cases hnone
  case stored =>
    intro row hrow raw hraw
    rcases mem_modify hrow with ⟨hold, -⟩ | ⟨old, -, -, rfl⟩
    · exact h.stored row hold raw hraw
    · cases hraw
      exact Or.inl (by rw [c.decrypt_encrypt]; rfl)
  case status =>
    intro row hrow
    rcases mem_modify hrow with ⟨hold, -⟩ | ⟨old, hold, -, rfl⟩
    · exact h.status row hold
    · exact h.status old hold
  case rowIds =>
    intro row hrow
    rcases mem_modify hrow with ⟨hold, -⟩ | ⟨old, hold, -, rfl⟩
    · exact h.rowIds row hold
    · exact h.rowIds old hold
  case setIds => exact h.setIds
  case tasks => exact h.tasks
  case given => exact h.given

theorem updated {nonce : Nonce} {p : LlmProvider} {new : Option String} {k : ℕ}
    (h : Sound exact masterKey found w) (ht : w.tasks[k]? = some (.update masterKey p new))
    (hothers : exact → new ≠ none → ∀ l t, l ≠ k → w.tasks[l]? = some t → ¬ t.Holds p.id) :
    Sound exact masterKey found { w with
      table := modify p.id (written c masterKey nonce p) w.table
      tasks := advance w.tasks k .done []
      sets := w.sets ++ setting p.id new } := by
  obtain ⟨others, hrep, hat⟩ := advance_replaced ht .done []
  obtain ⟨-, hid, hnew, hread⟩ := h.tasks _ hrep.task_mem
  have hset : ∀ key, p.apiKeyEncrypted = some key → IsKey exact (w.sets ++ setting p.id new) p.id key := by
    intro key hkey
    cases new with
    | none => exact (hread rfl key hkey).setting fun _ hsome => absurd rfl hsome
    | some v =>
      have heq : v = key := Option.some.inj ((hnew v rfl).symm.trans hkey)
      rw [heq]
      exact IsKey.self
  have hnothing : p.apiKeyEncrypted = none → new = none := by
    intro hkey
    cases new with
    | none => rfl
    | some v => cases (hnew v rfl).symm.trans hkey
  constructor
  case keys =>
    intro row hrow raw hraw
    rcases mem_modify hrow with ⟨hold, hne⟩ | ⟨old, hold, heq, rfl⟩
    · exact (h.keys row hold raw hraw).setting fun _ _ => hne.symm
    · have hid' : (written c masterKey nonce p old).id = p.id := heq
      rw [hid']
      cases hkey : p.apiKeyEncrypted with
      | none =>
        have hraw' : old.apiKeyEncrypted = some raw := by simpa [written, hkey] using hraw
        have hstored := h.keys old hold raw hraw'
        rw [heq] at hstored
        exact hstored.setting fun _ hsome => absurd (hnothing hkey) hsome
      | some key =>
        have hraw' : c.encrypt masterKey nonce key = raw := by simpa [written, hkey] using hraw
        rw [← hraw', c.plain_encrypt]
        exact hset key hkey
  case kept =>
    intro row hrow hnone key hmem
    rcases mem_modify hrow with ⟨hold, hne⟩ | ⟨old, hold, heq, rfl⟩
    · rcases List.mem_append.mp hmem with hmem | hmem
      · exact h.kept row hold hnone key hmem
      · exact hne (mem_setting hmem).1
    · have hboth : p.apiKeyEncrypted = none ∧ old.apiKeyEncrypted = none := by
        simpa [written] using hnone
      rcases List.mem_append.mp hmem with hmem | hmem
      · exact h.kept old hold hboth.2 key hmem
      · cases (hnothing hboth.1).symm.trans (mem_setting hmem).2
  case stored =>
    intro row hrow raw hraw
    rcases mem_modify hrow with ⟨hold, hne⟩ | ⟨old, hold, heq, rfl⟩
    · exact h.stored row hold raw hraw
    · cases hkey : p.apiKeyEncrypted with
      | none =>
        have hraw' : old.apiKeyEncrypted = some raw := by simpa [written, hkey] using hraw
        exact h.stored old hold raw hraw'
      | some key =>
        have hraw' : c.encrypt masterKey nonce key = raw := by simpa [written, hkey] using hraw
        exact Or.inl (by rw [← hraw', c.decrypt_encrypt]; rfl)
  case status =>
    intro row hrow
    rcases mem_modify hrow with ⟨hold, -⟩ | ⟨old, hold, -, rfl⟩
    · exact h.status row hold
    · exact h.status old hold
  case rowIds =>
    intro row hrow
    rcases mem_modify hrow with ⟨hold, -⟩ | ⟨old, hold, -, rfl⟩
    · exact h.rowIds row hold
    · exact h.rowIds old hold
  case setIds =>
    intro s hmem
    rcases List.mem_append.mp hmem with hmem | hmem
    · exact h.setIds s hmem
    · rw [(mem_setting hmem).1]
      exact hid
  case tasks =>
    refine hrep.forall_mem (fun t hother => ?_) trivial (by simp)
    obtain ⟨l, hl, hlt⟩ := hat t hother
    exact (h.tasks t (hrep.other_mem_before hother)).setting fun hexact hsome =>
      hothers hexact hsome l t hl hlt
  case given => exact fun g hg => List.mem_append_left _ (h.given g hg)

theorem afterRead {providers : List LlmProvider} {next : Next}
    (h : (Task.reEncrypt masterKey [] providers next).Sound exact masterKey sets nextId) :
    (ProviderRegistry.afterRead c acceptsUrl masterKey providers next).Sound exact masterKey sets nextId := by
  cases next with
  | reply => trivial
  | delete =>
    unfold ProviderRegistry.afterRead
    cases providers <;> trivial
  | update req =>
    unfold ProviderRegistry.afterRead
    cases hpatched : providers.head?.bind (patched acceptsUrl req) with
    | none => simp only [hpatched]; trivial
    | some p' =>
      simp only [hpatched]
      obtain ⟨p, hhead, hp'⟩ := Option.bind_eq_some_iff.mp hpatched
      have hp : p ∈ providers := List.mem_of_mem_head? hhead
      obtain ⟨hid, hread⟩ := h.2.2 p hp
      unfold patched at hp'
      split at hp'
      · cases hp'
      · split at hp'
        · cases hp'
        · cases hp'
          refine ⟨rfl, hid, fun key hnew => by simp [hnew], fun hnone key hpkey => ?_⟩
          have hold : p.apiKeyEncrypted = some key := by simpa [hnone] using hpkey
          obtain ⟨hmem, hlast⟩ := hread key hold
          exact ⟨hmem, fun hexact => hlast hexact req rfl hnone⟩

theorem handedOut {providers : List LlmProvider} {next : Next} {g : Uuid × String}
    (h : (Task.reEncrypt masterKey [] providers next).Sound exact masterKey sets nextId)
    (hg : g ∈ ProviderRegistry.handedOut providers next) : g ∈ sets := by
  cases next with
  | reply =>
    obtain ⟨p, hp, hmap⟩ := List.mem_filterMap.mp hg
    obtain ⟨key, hkey, rfl⟩ := Option.map_eq_some_iff.mp hmap
    exact ((h.2.2 p hp).2 key hkey).1
  | update req => cases hg
  | delete => cases hg

theorem statement {k : ℕ} {nonce : Nonce} {ok : Bool} {t : Task c.Key}
    (h : Sound exact masterKey found w) (ht : w.tasks[k]? = some t)
    (halone : exact → Alone w (.statement k nonce ok))
    (hs : w.runStatement c acceptsUrl k nonce ok t = some w') : Sound exact masterKey found w' := by
  have hsound := h.tasks t (List.mem_of_getElem? ht)
  cases t with
  | reEncrypt key legacy providers next =>
    obtain ⟨rfl, hlegacy, hproviders⟩ := hsound
    cases legacy with
    | nil =>
      cases hs
      have hread : (Task.reEncrypt key [] providers next).Sound exact key w.sets w.nextId :=
        ⟨rfl, hlegacy, hproviders⟩
      have hmoved := h.moved ht (@Sound.afterRead c acceptsUrl _ _ _ _ _ _ hread)
      refine { hmoved with given := fun g hg => ?_ }
      rcases List.mem_append.mp hg with hg | hg
      · exact h.given g hg
      · exact Sound.handedOut hread hg
    | cons e legacy =>
      cases hs
      have hrest : (Task.reEncrypt key legacy providers next).Sound exact key w.sets w.nextId :=
        ⟨rfl, fun e he => hlegacy e (List.mem_cons_of_mem _ he), hproviders⟩
      have hmoved := h.moved ht hrest
      cases ok with
      | false => exact hmoved
      | true => exact hmoved.reEncrypted (hlegacy e List.mem_cons_self)
  | update key p new =>
    obtain ⟨rfl, -, -, -⟩ := hsound
    cases ok with
    | false =>
      cases hs
      exact h.moved ht trivial
    | true =>
      cases hs
      refine h.updated ht fun hexact hsome => ?_
      obtain ⟨v, hv⟩ := Option.ne_none_iff_exists'.mp hsome
      exact halone hexact key p v (hv ▸ ht)
  | delete id =>
    cases hs
    have hdone : Task.Sound exact masterKey w.sets w.nextId .done := trivial
    have hmoved := h.moved ht hdone
    cases ok with
    | false => exact hmoved
    | true =>
      have hmem : ∀ row ∈ w.table.filter fun row => row.id ≠ id, row ∈ w.table := fun row hrow =>
        List.mem_of_mem_filter hrow
      exact { hmoved with
        keys := fun row hrow => h.keys row (hmem row hrow)
        kept := fun row hrow => h.kept row (hmem row hrow)
        stored := fun row hrow => h.stored row (hmem row hrow)
        status := fun row hrow => h.status row (hmem row hrow)
        rowIds := fun row hrow => h.rowIds row (hmem row hrow) }
  | done => cases hs

theorem step {a : Act c.Key} (h : Sound exact masterKey found w) (hshared : Shared masterKey a)
    (halone : exact → Alone w a) (hs : w.step c acceptsUrl a = some w') :
    Sound exact masterKey found w' := by
  cases a with
  | register key p nonce =>
    cases hshared
    exact h.register hs
  | query key q =>
    cases hshared
    cases hs
    exact h.read
  | request key id next =>
    cases hshared
    cases hs
    exact h.read
  | statement k nonce ok =>
    obtain ⟨t, ht, hs⟩ := Option.bind_eq_some_iff.mp hs
    exact h.statement ht halone hs
  | updateStatus id status => exact h.updateStatus hs

theorem init (hids : (found.map LlmProvider.id).Nodup) :
    Sound exact masterKey found (World.init c masterKey found) := by
  have hsame : ∀ row ∈ found, ∀ r ∈ found, row.id = r.id → row = r := fun row hrow r hr heq =>
    List.inj_on_of_nodup_map hids hrow hr heq
  have hset : ∀ s ∈ (World.init c masterKey found).sets, ∃ row ∈ found, ∃ raw,
      row.apiKeyEncrypted = some raw ∧ s = (row.id, c.plain masterKey raw) := by
    intro s hs
    obtain ⟨row, hrow, hmap⟩ := List.mem_filterMap.mp hs
    obtain ⟨raw, hraw, rfl⟩ := Option.map_eq_some_iff.mp hmap
    exact ⟨row, hrow, raw, hraw, rfl⟩
  have hlt : ∀ row ∈ found, row.id < (World.init c masterKey found).nextId := by
    intro row hrow
    have hle : ∀ ids : List ℕ, ∀ n ∈ ids, n ≤ ids.foldr max 0 := by
      intro ids n hn
      induction ids with
      | nil => cases hn
      | cons m ids ih =>
        rcases List.mem_cons.mp hn with rfl | hn
        · exact Nat.le_max_left _ _
        · exact Nat.le_trans (ih hn) (Nat.le_max_right _ _)
    exact hle _ (row.id + 1) (List.mem_map_of_mem hrow)
  constructor
  case keys =>
    intro row hrow raw hraw
    have hmem : (row.id, c.plain masterKey raw) ∈ (World.init c masterKey found).sets :=
      List.mem_filterMap.mpr ⟨row, hrow, by rw [hraw]; rfl⟩
    refine ⟨hmem, fun _ => lastOf_of_unique hmem fun key hkey => ?_⟩
    obtain ⟨r, hr, raw', hraw', heq⟩ := hset _ hkey
    have hrow' : row = r := hsame row hrow r hr (congrArg Prod.fst heq)
    subst hrow'
    cases hraw.symm.trans hraw'
    exact congrArg Prod.snd heq
  case kept =>
    intro row hrow hnone key hkey
    obtain ⟨r, hr, raw, hraw, heq⟩ := hset _ hkey
    have hrow' : row = r := hsame row hrow r hr (congrArg Prod.fst heq)
    subst hrow'
    cases hnone.symm.trans hraw
  case stored => exact fun row hrow raw hraw => Or.inr ⟨row, hrow, rfl, hraw⟩
  case status =>
    intro row hrow
    have hmem : (row.id, row.status) ∈ (World.init c masterKey found).statuses :=
      List.mem_map_of_mem hrow
    refine lastOf_of_unique hmem fun status hstatus => ?_
    obtain ⟨r, hr, heq⟩ := List.mem_map.mp hstatus
    have hrow' : r = row := hsame r hr row hrow (congrArg Prod.fst heq)
    subst hrow'
    exact (congrArg Prod.snd heq).symm
  case rowIds => exact hlt
  case setIds =>
    intro s hs
    obtain ⟨row, hrow, -, -, rfl⟩ := hset s hs
    exact hlt row hrow
  case tasks => exact fun t ht => absurd ht List.not_mem_nil
  case given => exact fun g hg => absurd hg List.not_mem_nil

end Sound

/-! ## Runs -/

theorem sound_of_run (exact : Prop) (hids : (found.map LlmProvider.id).Nodup)
    (h : Run (World.step c acceptsUrl) (fun w a => Shared masterKey a ∧ (exact → Alone w a))
      (World.init c masterKey found) w) : Sound exact masterKey found w :=
  h.invariant (Sound.init hids) fun _ _ _ _ hsound hok hs => hsound.step hok.1 hok.2 hs

/-- Among instances with one master key, in whatever order their statements run, every stored key
reads as one that was set for its provider, and is there if one was set; it is encrypted or the text
that was found at the start; every key handed out was set for its provider; and the status is the one
that was set last, whatever PATCHes have read before. When nobody sets a key while another operation
holds an older one, the stored key is the one that was set last. -/
theorem registry_keeps (hids : (found.map LlmProvider.id).Nodup) :
    (Run (World.step c acceptsUrl) (fun _ a => Shared masterKey a) (World.init c masterKey found) w →
      (∀ row ∈ w.table, lastOf row.id w.statuses = some row.status ∧
        (row.apiKeyEncrypted = none → ∀ key, (row.id, key) ∉ w.sets) ∧
        ∀ raw, row.apiKeyEncrypted = some raw → (row.id, c.plain masterKey raw) ∈ w.sets ∧
          ((c.decrypt masterKey raw).isSome ∨
            ∃ r ∈ found, r.id = row.id ∧ r.apiKeyEncrypted = some raw)) ∧
      ∀ g ∈ w.given, g ∈ w.sets) ∧
    (Run (World.step c acceptsUrl) (fun w a => Shared masterKey a ∧ Alone w a)
        (World.init c masterKey found) w →
      ∀ row ∈ w.table, lastOf row.id w.sets = row.apiKeyEncrypted.map (c.plain masterKey)) := by
  refine ⟨fun hrun => ?_, fun hrun row hrow => ?_⟩
  · have hsound := sound_of_run False hids (hrun.mono fun _ _ h => ⟨h, fun hfalse => absurd hfalse id⟩)
    refine ⟨fun row hrow => ⟨hsound.status row hrow, hsound.kept row hrow, fun raw hraw => ?_⟩,
      hsound.given⟩
    exact ⟨(hsound.keys row hrow raw hraw).1, hsound.stored row hrow raw hraw⟩
  · have hsound := sound_of_run True hids (hrun.mono fun _ _ h => ⟨h.1, fun _ => h.2⟩)
    cases hkey : row.apiKeyEncrypted with
    | none =>
      have hfound : (w.sets.reverse.find? fun s => decide (s.1 = row.id)) = none := by
        refine List.find?_eq_none.mpr fun s hs hid => ?_
        have heq : s.1 = row.id := of_decide_eq_true hid
        exact hsound.kept row hrow hkey s.2 (heq ▸ List.mem_reverse.mp hs)
      rw [lastOf, hfound]
      rfl
    | some raw => exact (hsound.keys row hrow raw hkey).2 trivial

/-! ## Samples -/

def charBytes (char : Char) : List UInt8 :=
  [UInt8.ofNat (char.toNat / 65536), UInt8.ofNat (char.toNat / 256), UInt8.ofNat char.toNat]

def bytesText : List UInt8 → Option (List Char)
  | [] => some []
  | high :: mid :: low :: rest => (bytesText rest).map fun text =>
    Char.ofNat (high.toNat * 65536 + mid.toNat * 256 + low.toNat) :: text
  | _ => none

theorem bytesText_charBytes (text : List Char) : bytesText (text.flatMap charBytes) = some text := by
  induction text with
  | nil => rfl
  | cons char text ih =>
    have hchar : char.toNat < 0x110000 := by
      have hvalid := char.valid
      rcases hvalid with h | h
      · exact Nat.lt_trans h (by decide)
      · exact h.2
    have hnum : (UInt8.ofNat (char.toNat / 65536)).toNat * 65536 +
        (UInt8.ofNat (char.toNat / 256)).toNat * 256 + (UInt8.ofNat char.toNat).toNat = char.toNat := by
      simp only [UInt8.toNat_ofNat']
      omega
    rw [List.flatMap_cons, charBytes, List.cons_append, List.cons_append, List.cons_append,
      List.nil_append, bytesText, ih, hnum, Char.ofNat_toNat]
    rfl

/-- The tag of a sample cipher is its key. -/
def sampleTag (key : Bool) : List UInt8 := List.replicate 16 (if key then 1 else 2)

def sampleCrypto : Crypto where
  Key := Bool
  encode := fun bytes => String.ofList (bytes.map fun b => Char.ofNat b.toNat)
  decode := fun text =>
    if text.toList.all fun char => char.toNat < 256 then
      some (text.toList.map fun char => UInt8.ofNat char.toNat)
    else none
  decode_encode := by
    intro bytes
    have hnat : ∀ b : UInt8, (Char.ofNat b.toNat).toNat = b.toNat := by
      intro b
      have hlt := b.toNat_lt
      have hvalid : b.toNat.isValidChar := Or.inl (by omega)
      rw [Char.ofNat, dif_pos hvalid]
      rfl
    have hall : ∀ b ∈ bytes, b.toNat < 256 := fun b _ => b.toNat_lt
    simp [hnat, Function.comp_def]
    exact hall
  sealText := fun key _ text => sampleTag key ++ text.toList.flatMap charBytes
  openText := fun key _ bytes =>
    if bytes.take 16 = sampleTag key then (bytesText (bytes.drop 16)).map String.ofList else none
  openText_sealText := by
    intro key nonce text
    have htake : (sampleTag key ++ text.toList.flatMap charBytes).take 16 = sampleTag key :=
      List.take_left' (List.length_replicate ..)
    have hdrop : (sampleTag key ++ text.toList.flatMap charBytes).drop 16 = text.toList.flatMap charBytes :=
      List.drop_left' (List.length_replicate ..)
    rw [if_pos htake, hdrop, bytesText_charBytes, Option.map_some, String.ofList_toList]

instance : DecidableEq sampleCrypto.Key := inferInstanceAs (DecidableEq Bool)

def sampleNonce : Nonce := ⟨List.replicate 12 0, rfl⟩

def sampleRow : LlmProvider where
  id := 1
  name := "gemini"
  providerType := .gemini
  url := ""
  apiKeyEncrypted := some "AIza-old"
  totalVramMb := 0
  gpuIndex := none
  serverId := none
  isFreeTier := false
  numParallel := 4
  status := .online
  registeredAt := 0

def renamed (newKey : Option String) : UpdateProviderRequest where
  name := "renamed"
  url := none
  apiKey := newKey
  totalVramMb := none
  gpuIndex := none
  serverId := none
  isFreeTier := none
  numParallel := none

def next (k : ℕ) : Act sampleCrypto.Key := Act.statement k sampleNonce true

def sampleStep : World sampleCrypto.Key → Act sampleCrypto.Key → Option (World sampleCrypto.Key) :=
  World.step sampleCrypto fun _ => true

def storedKeys (w : World sampleCrypto.Key) : List (Option String) :=
  w.table.map fun row => row.apiKeyEncrypted.map (sampleCrypto.plain true)

def Task.isDone : Task sampleCrypto.Key → Bool
  | .done => true
  | _ => false

def usesKey (key : sampleCrypto.Key) : Act sampleCrypto.Key → Bool
  | .register k _ _ | .query k _ | .request k _ _ => decide (k = key)
  | _ => true

/-- One operation after the other. -/
def sequential (w : World sampleCrypto.Key) (a : Act sampleCrypto.Key) : Bool :=
  usesKey true a && match a with
    | .statement k _ _ => w.tasks.zipIdx.all fun t => decide (t.2 = k) || t.1.isDone
    | _ => true

theorem shared_of_usesKey {key : sampleCrypto.Key} {a : Act sampleCrypto.Key} (h : usesKey key a = true) :
    @Shared sampleCrypto key a := by
  cases a with
  | register k p nonce => exact (of_decide_eq_true h : k = key)
  | query k q => exact (of_decide_eq_true h : k = key)
  | request k id next => exact (of_decide_eq_true h : k = key)
  | statement k nonce ok => trivial
  | updateStatus id status => trivial

theorem sequential_ok (w : World sampleCrypto.Key) (a : Act sampleCrypto.Key) (h : sequential w a = true) :
    @Shared sampleCrypto true a ∧ @Alone sampleCrypto w a := by
  obtain ⟨hkey, hothers⟩ := (Bool.and_eq_true ..).mp h
  refine ⟨shared_of_usesKey hkey, ?_⟩
  cases a with
  | statement k nonce ok =>
    intro key p newKey _ l t hl ht hholds
    have hmem : (t, l) ∈ w.tasks.zipIdx := List.mem_zipIdx_iff_getElem?.mpr ht
    rcases (Bool.or_eq_true ..).mp (List.all_eq_true.mp hothers _ hmem) with heq | hdone
    · exact hl (of_decide_eq_true heq)
    · cases t with
      | done => exact hholds
      | _ => cases hdone
  | _ => trivial

/-- A plain key is read, stored encrypted and then replaced. -/
def sampleActs : List (Act sampleCrypto.Key) :=
  [Act.request true 1 .reply, next 0, next 0,
    Act.request true 1 (.update (renamed (some "AIza-new"))), next 1, next 1]

theorem key_replaced : ∃ w : World sampleCrypto.Key,
    Run sampleStep (fun w a => @Shared sampleCrypto true a ∧ @Alone sampleCrypto w a)
      (World.init sampleCrypto true [sampleRow]) w ∧
    storedKeys w = [some "AIza-new"] ∧ w.given = [(1, "AIza-old")] ∧
    ∀ row ∈ w.table, lastOf row.id w.sets = row.apiKeyEncrypted.map (sampleCrypto.plain true) := by
  have hexec : ((exec sampleStep sequential (World.init sampleCrypto true [sampleRow]) sampleActs).any
      fun w => decide (storedKeys w = [some "AIza-new"] ∧ w.given = [(1, "AIza-old")])) = true := by
    decide +kernel
  obtain ⟨w, hrun, hw⟩ := Run.exists_of_exec sequential_ok hexec
  obtain ⟨hkeys, hgiven⟩ := of_decide_eq_true hw
  have hids : ([sampleRow].map LlmProvider.id).Nodup := List.nodup_singleton _
  exact ⟨w, hrun, hkeys, hgiven, (registry_keeps hids).2 hrun⟩

end Veronex.ProviderRegistry
