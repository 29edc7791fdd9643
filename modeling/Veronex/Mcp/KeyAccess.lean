import Veronex.Foundation.Pool
import Veronex.Foundation.Transition
import Veronex.Mcp.ToolAccess

/-! # Granting and revoking the access of a key

`fetch_mcp_acl` reads the cache of a key, or its rows, and stores what it read;
`grant_key_mcp_access` and `revoke_key_mcp_access` write the row and then drop the cache. Each
command is a step, and those of different tasks interleave. Commands on Valkey succeed, those on the
database may fail.

`AclWorld.barred` and what a loop carries as `barred` are kept for the statement: the servers that
are revoked, and those that were when the loop started, until they are granted again.
-/
namespace Veronex.Mcp
set_option autoImplicit false
open Concurrency

def MCP_KEY_CACHE_TTL_MS : Millis := 60 * 1000

/-- A row of `mcp_key_access`. -/
structure AccessRow where
  apiKeyId : Uuid
  serverId : Uuid
  isAllowed : Bool

inductive AclTask
  /-- `fetch_mcp_acl`: `GET`, the rows, `SET`. `loop`: of a `run_loop`, not of a handler that only
  asks whether there is anything. -/
  | get (key : Uuid) (loop : Bool) (barred : List Uuid)
  | read (key : Uuid) (loop : Bool) (barred : List Uuid)
  | store (key : Uuid) (ids : List Uuid) (loop : Bool) (barred : List Uuid)
  /-- `run_loop` with the servers the key may use. -/
  | running (key : Uuid) (allowed : List Uuid) (barred : List Uuid)
  /-- `grant_key_mcp_access`. -/
  | lookup (key server : Uuid)
  | upsert (key server : Uuid)
  | invalidate (key : Uuid)
  /-- `revoke_key_mcp_access`. `valid`: the server has not been granted since its row went. -/
  | delete (key server : Uuid)
  | drop (key server : Uuid) (valid : Bool)
  | audit (key server : Uuid) (valid : Bool)
  | finished
  deriving DecidableEq

structure AclWorld where
  now : Millis
  rows : List AccessRow
  /-- `veronex:mcp:acl:{key_id}`, with its expiry. -/
  cache : Uuid → Option (List Uuid × Millis)
  tasks : List AclTask
  /-- The key and the server of every `revoke_key_mcp_access` that has returned. -/
  barred : List (Uuid × Uuid)
  /-- The tools a loop has executed although their server was revoked when it started. -/
  lateUses : List (Uuid × Uuid)

inductive AclAction
  | fetch (key : Uuid) (loop : Bool)
  | grant (key server : Uuid)
  | revoke (key server : Uuid)
  /-- The next command of a task; `ok` is whether the database answers it, and for the lookup of a
  grant whether it finds the server. -/
  | step (k : ℕ) (ok : Bool)
  /-- A loop executes a tool of the server. -/
  | use (k : ℕ) (server : Uuid)
  | tick (ms : Millis)

namespace AclTask

/-- The loop of a `fetch_mcp_acl`, or nothing. -/
def fetched (key : Uuid) (ids : List Uuid) (loop : Bool) (barred : List Uuid) : AclTask :=
  if loop then .running key ids barred else .finished

/-- A server is granted again: nothing that was revoked before counts. -/
def granted (key server : Uuid) : AclTask → AclTask
  | .get k loop barred => .get k loop (if k = key then barred.filter (· ≠ server) else barred)
  | .read k loop barred => .read k loop (if k = key then barred.filter (· ≠ server) else barred)
  | .store k ids loop barred =>
    .store k ids loop (if k = key then barred.filter (· ≠ server) else barred)
  | .running k allowed barred =>
    .running k allowed (if k = key then barred.filter (· ≠ server) else barred)
  | .drop k s valid => .drop k s (valid && !decide (k = key ∧ s = server))
  | .audit k s valid => .audit k s (valid && !decide (k = key ∧ s = server))
  | t => t

end AclTask

namespace AclWorld

def init (rows : List AccessRow) : AclWorld :=
  { now := 0, rows, cache := fun _ => none, tasks := [], barred := [], lateUses := [] }

def barredOf (w : AclWorld) (key : Uuid) : List Uuid :=
  (w.barred.filter fun b => b.1 = key).map Prod.snd

/-- `GET` of the cache of a key. -/
def cached (w : AclWorld) (key : Uuid) : Option (List Uuid) :=
  (w.cache key).bind fun entry => if w.now < entry.2 then some entry.1 else none

/-- `SELECT server_id .. WHERE api_key_id = $1 AND is_allowed = true`. -/
def allowedIds (w : AclWorld) (key : Uuid) : List Uuid :=
  (w.rows.filter fun r => r.apiKeyId = key ∧ r.isAllowed).map AccessRow.serverId

/-- `INSERT .. ON CONFLICT (api_key_id, server_id) DO UPDATE SET is_allowed = true`. -/
def upsertRow (w : AclWorld) (key server : Uuid) : List AccessRow :=
  if w.rows.any fun r => decide (r.apiKeyId = key ∧ r.serverId = server) then
    w.rows.map fun r =>
      if r.apiKeyId = key ∧ r.serverId = server then { r with isAllowed := true } else r
  else w.rows ++ [{ apiKeyId := key, serverId := server, isAllowed := true }]

def setTask (w : AclWorld) (k : ℕ) (t : AclTask) : AclWorld := { w with tasks := w.tasks.set k t }

/-- The next command of the task at `k`. -/
def taskStep (w : AclWorld) (k : ℕ) (ok : Bool) : AclTask → Option AclWorld
  | .get key loop barred =>
    match w.cached key with
    | some ids => some (w.setTask k (.fetched key ids loop barred))
    | none => some (w.setTask k (.read key loop barred))
  | .read key loop barred =>
    -- unwrap_or_default
    some (w.setTask k (.store key (if ok then w.allowedIds key else []) loop barred))
  | .store key ids loop barred =>
    some { w.setTask k (.fetched key ids loop barred) with
      cache := Function.update w.cache key (some (ids, w.now + MCP_KEY_CACHE_TTL_MS)) }
  | .lookup key server => some (w.setTask k (if ok then .upsert key server else .finished))
  | .upsert key server =>
    if ok then
      some { w with
        rows := w.upsertRow key server
        barred := w.barred.filter (· ≠ (key, server))
        tasks := (w.tasks.set k (.invalidate key)).map (AclTask.granted key server) }
    else some (w.setTask k .finished)
  | .invalidate key =>
    some { w.setTask k .finished with cache := Function.update w.cache key none }
  | .delete key server =>
    if ok then
      some { w.setTask k (.drop key server true) with
        rows := w.rows.filter fun r => ¬ (r.apiKeyId = key ∧ r.serverId = server) }
    else some (w.setTask k .finished)
  | .drop key server valid =>
    some { w.setTask k (.audit key server valid) with cache := Function.update w.cache key none }
  | .audit key server valid =>
    some { w.setTask k .finished with
      barred := if valid then (key, server) :: w.barred else w.barred }
  | .running .. | .finished => none

def step (w : AclWorld) : AclAction → Option AclWorld
  | .fetch key loop => some { w with tasks := w.tasks ++ [.get key loop (w.barredOf key)] }
  | .grant key server => some { w with tasks := w.tasks ++ [.lookup key server] }
  | .revoke key server => some { w with tasks := w.tasks ++ [.delete key server] }
  | .step k ok => do
    let t ← w.tasks[k]?
    w.taskStep k ok t
  | .use k server => do
    let t ← w.tasks[k]?
    match t with
    | .running key allowed barred =>
      if permits (some allowed) server then
        some { w with lateUses :=
          if server ∈ barred then (key, server) :: w.lateUses else w.lateUses }
      else none
    | _ => none
  | .tick ms => some { w with now := w.now + ms }

/-- The revocation has dropped the cache of the key, and the server has not been granted since. -/
def Gone (w : AclWorld) (key server : Uuid) : Prop :=
  (key, server) ∈ w.barred ∨ .audit key server true ∈ w.tasks

/-- A fetch does not store a server whose revocation has already dropped the cache. -/
def StoresFresh (w : AclWorld) : AclAction → Prop
  | .step k _ =>
    match w.tasks[k]? with
    | some (.store key ids _ _) => ∀ s ∈ ids, ¬ w.Gone key s
    | _ => True
  | _ => True

instance (w : AclWorld) (key server : Uuid) : Decidable (w.Gone key server) :=
  inferInstanceAs (Decidable (_ ∨ _))

instance (w : AclWorld) (a : AclAction) : Decidable (w.StoresFresh a) := by
  unfold StoresFresh
  split
  · split <;> exact inferInstance
  · exact inferInstance

/-! ## Revoked servers -/

/-- Neither a row nor the cache of the key has the server. -/
structure Shut (w : AclWorld) (key server : Uuid) : Prop where
  row : server ∉ w.allowedIds key
  cache : ∀ entry, w.cache key = some entry → server ∉ entry.1

end AclWorld

/-- What a task has read does not have the servers that were revoked when it started. -/
def AclTask.Clean (w : AclWorld) : AclTask → Prop
  | .get key _ barred | .read key _ barred => ∀ s ∈ barred, (key, s) ∈ w.barred
  | .store key ids _ barred | .running key ids barred =>
    ∀ s ∈ barred, (key, s) ∈ w.barred ∧ s ∉ ids
  | .drop key server valid => valid = true → server ∉ w.allowedIds key
  | .audit key server valid => valid = true → w.Shut key server
  | _ => True

structure AclWorld.Guarded (w : AclWorld) : Prop where
  barred : ∀ key s, (key, s) ∈ w.barred → w.Shut key s
  tasks : ∀ t ∈ w.tasks, t.Clean w
  uses : w.lateUses = []

variable {w w' : AclWorld} {key server : Uuid} {t t' : AclTask} {k : ℕ} {ok : Bool}

theorem AclTask.Clean.of_frame (h : t.Clean w) (hbarred : ∀ b ∈ w.barred, b ∈ w'.barred)
    (hrows : ∀ key s, s ∈ w'.allowedIds key → s ∈ w.allowedIds key)
    (hshut : ∀ key s, t = .audit key s true → w.Shut key s → w'.Shut key s) : t.Clean w' := by
  cases t with
  | get key loop barred => exact fun s hs => hbarred _ (h s hs)
  | read key loop barred => exact fun s hs => hbarred _ (h s hs)
  | store key ids loop barred => exact fun s hs => ⟨hbarred _ (h s hs).1, (h s hs).2⟩
  | running key ids barred => exact fun s hs => ⟨hbarred _ (h s hs).1, (h s hs).2⟩
  | drop key server valid => exact fun hvalid hrow => h hvalid (hrows _ _ hrow)
  | audit key server valid =>
    intro hvalid
    subst hvalid
    exact hshut key server rfl (h rfl)
  | _ => trivial

theorem clean_fetched {ids barred : List Uuid} {loop : Bool}
    (h : ∀ s ∈ barred, (key, s) ∈ w.barred ∧ s ∉ ids) :
    (AclTask.fetched key ids loop barred).Clean w := by
  unfold AclTask.fetched
  split
  · exact h
  · trivial

namespace AclWorld

theorem mem_allowedIds {s : Uuid} :
    s ∈ w.allowedIds key ↔
      ∃ r ∈ w.rows, r.apiKeyId = key ∧ r.isAllowed = true ∧ r.serverId = s := by
  simp only [allowedIds, List.mem_map, List.mem_filter, decide_eq_true_eq, and_assoc]

theorem Shut.of_frame {s : Uuid} (h : w.Shut key s)
    (hrows : s ∈ w'.allowedIds key → s ∈ w.allowedIds key) (hcache : w'.cache key = w.cache key) :
    w'.Shut key s :=
  ⟨fun hrow => h.row (hrows hrow), fun entry hentry => h.cache entry (hcache ▸ hentry)⟩

theorem cache_dropped {j s : Uuid} (h : ∀ entry, w.cache j = some entry → s ∉ entry.1) :
    ∀ entry, Function.update w.cache key none j = some entry → s ∉ entry.1 := by
  intro entry hentry
  by_cases hj : j = key
  · simp [hj] at hentry
  · exact h entry (by simpa [hj] using hentry)

/-- One task moves, and servers that are revoked stay shut out. -/
theorem Guarded.moved (h : w.Guarded) (htasks : w'.tasks = w.tasks.set k t')
    (hbarred : ∀ b ∈ w.barred, b ∈ w'.barred)
    (hnew : ∀ key s, (key, s) ∈ w'.barred → (key, s) ∈ w.barred ∨ w'.Shut key s)
    (hrows : ∀ key s, s ∈ w'.allowedIds key → s ∈ w.allowedIds key)
    (hshut : ∀ key s, w.Gone key s → w.Shut key s → w'.Shut key s) (ht' : t'.Clean w')
    (huses : w'.lateUses = w.lateUses) : w'.Guarded where
  barred key s hs := by
    rcases hnew key s hs with hold | hshut'
    · exact hshut key s (.inl hold) (h.barred key s hold)
    · exact hshut'
  tasks t ht := by
    rw [htasks] at ht
    rcases List.mem_or_eq_of_mem_set ht with hold | rfl
    · refine (h.tasks t hold).of_frame hbarred hrows fun key s heq => ?_
      subst heq
      exact hshut key s (.inr hold)
    · exact ht'
  uses := huses.trans h.uses

/-- One task moves and changes nothing else. -/
theorem Guarded.set (h : w.Guarded) (ht' : t'.Clean w) : (w.setTask k t').Guarded := by
  refine h.moved rfl (fun b hb => hb) (fun key s hs => .inl hs) (fun key s hs => hs)
    (fun key s _ hs => ⟨hs.row, hs.cache⟩) ?_ rfl
  exact ht'.of_frame (fun b hb => hb) (fun key s hs => hs) fun key s _ hs => ⟨hs.row, hs.cache⟩

/-- A server that is granted again is the only one that gets a row. -/
theorem mem_allowedIds_upsertRow {rows' : List AccessRow} {j s : Uuid}
    (hrows : rows' = w.upsertRow key server)
    (h : s ∈ ({ w with rows := rows' } : AclWorld).allowedIds j) :
    s ∈ w.allowedIds j ∨ j = key ∧ s = server := by
  subst hrows
  obtain ⟨r, hr, hkey, hallowed, hserver⟩ := mem_allowedIds.mp h
  unfold upsertRow at hr
  dsimp only at hr
  split at hr
  · obtain ⟨old, hold, rfl⟩ := List.mem_map.mp hr
    split at hkey
    · next hmatch =>
      rw [if_pos hmatch] at hserver
      exact .inr ⟨hkey.symm.trans hmatch.1, hserver.symm.trans hmatch.2⟩
    · next hother =>
      rw [if_neg hother] at hallowed hserver
      exact .inl (mem_allowedIds.mpr ⟨old, hold, hkey, hallowed, hserver⟩)
  · rcases List.mem_append.mp hr with hr | hr
    · exact .inl (mem_allowedIds.mpr ⟨r, hr, hkey, hallowed, hserver⟩)
    · obtain rfl := List.mem_singleton.mp hr
      exact .inr ⟨hkey.symm, hserver.symm⟩

/-- The world after the row of a grant is written. -/
def grantRow (w : AclWorld) (key server : Uuid) (tasks : List AclTask) : AclWorld :=
  { w with
    rows := w.upsertRow key server
    barred := w.barred.filter (· ≠ (key, server))
    tasks := tasks.map (AclTask.granted key server) }

variable {tasks : List AclTask}

theorem mem_barred_grantRow {j s : Uuid} :
    (j, s) ∈ (w.grantRow key server tasks).barred ↔
      (j, s) ∈ w.barred ∧ ¬ (j = key ∧ s = server) := by
  simp only [grantRow, List.mem_filter, decide_eq_true_eq, ne_eq, Prod.mk.injEq]

theorem Shut.grantRow {j s : Uuid} (h : w.Shut j s) (hother : ¬ (j = key ∧ s = server)) :
    (w.grantRow key server tasks).Shut j s := by
  refine ⟨fun hrow => ?_, h.cache⟩
  rcases mem_allowedIds_upsertRow rfl hrow with hold | hgranted
  · exact h.row hold
  · exact hother hgranted

/-- The servers a task still has to respect are others than the one granted. -/
theorem mem_granted_barred {j s : Uuid} {barred : List Uuid}
    (h : s ∈ if j = key then barred.filter (· ≠ server) else barred) :
    s ∈ barred ∧ ¬ (j = key ∧ s = server) := by
  split at h
  · obtain ⟨hmem, hne⟩ := List.mem_filter.mp h
    exact ⟨hmem, fun hgranted => (of_decide_eq_true hne) hgranted.2⟩
  · next hj => exact ⟨h, fun hgranted => hj hgranted.1⟩

theorem clean_granted (h : t.Clean w) :
    (t.granted key server).Clean (w.grantRow key server tasks) := by
  have hvalid : ∀ {j s : Uuid} {valid : Bool},
      (valid && !decide (j = key ∧ s = server)) = true →
        valid = true ∧ ¬ (j = key ∧ s = server) := by
    intro j s valid hboth
    rw [Bool.and_eq_true, Bool.not_eq_true'] at hboth
    exact ⟨hboth.1, of_decide_eq_false hboth.2⟩
  cases t with
  | get j loop barred =>
    intro s hs
    obtain ⟨hmem, hother⟩ := mem_granted_barred hs
    exact mem_barred_grantRow.mpr ⟨h s hmem, hother⟩
  | read j loop barred =>
    intro s hs
    obtain ⟨hmem, hother⟩ := mem_granted_barred hs
    exact mem_barred_grantRow.mpr ⟨h s hmem, hother⟩
  | store j ids loop barred =>
    intro s hs
    obtain ⟨hmem, hother⟩ := mem_granted_barred hs
    exact ⟨mem_barred_grantRow.mpr ⟨(h s hmem).1, hother⟩, (h s hmem).2⟩
  | running j ids barred =>
    intro s hs
    obtain ⟨hmem, hother⟩ := mem_granted_barred hs
    exact ⟨mem_barred_grantRow.mpr ⟨(h s hmem).1, hother⟩, (h s hmem).2⟩
  | drop j s valid =>
    intro hboth hrow
    obtain ⟨htrue, hother⟩ := hvalid hboth
    rcases mem_allowedIds_upsertRow rfl hrow with hold | hgranted
    · exact h htrue hold
    · exact hother hgranted
  | audit j s valid =>
    intro hboth
    obtain ⟨htrue, hother⟩ := hvalid hboth
    exact (h htrue).grantRow hother
  | _ => trivial

theorem Guarded.granted (h : w.Guarded) (htasks : ∀ t ∈ tasks, t.Clean w) :
    (w.grantRow key server tasks).Guarded where
  barred j s hs := by
    obtain ⟨hold, hother⟩ := mem_barred_grantRow.mp hs
    exact (h.barred j s hold).grantRow hother
  tasks t ht := by
    obtain ⟨old, hold, rfl⟩ := List.mem_map.mp ht
    exact clean_granted (htasks old hold)
  uses := h.uses

/-! ## Steps -/

theorem Guarded.taskStep (h : w.Guarded) (ht : w.tasks[k]? = some t)
    (hfresh : w.StoresFresh (.step k ok)) (hstep : w.taskStep k ok t = some w') : w'.Guarded := by
  have hclean : t.Clean w := h.tasks t (List.mem_of_getElem? ht)
  cases t with
  | get key loop barred =>
    simp only [AclWorld.taskStep] at hstep
    split at hstep
    · next ids hcached =>
      cases hstep
      refine h.set (clean_fetched fun s hs => ⟨hclean s hs, ?_⟩)
      obtain ⟨entry, hentry, hlive⟩ := Option.bind_eq_some_iff.mp hcached
      split at hlive
      · cases hlive
        exact (h.barred key s (hclean s hs)).cache entry hentry
      · cases hlive
    · cases hstep
      exact h.set hclean
  | read key loop barred =>
    cases hstep
    refine h.set fun s hs => ⟨hclean s hs, ?_⟩
    split
    · exact (h.barred key s (hclean s hs)).row
    · exact List.not_mem_nil
  | store key ids loop barred =>
    cases hstep
    have hfresh' : ∀ s ∈ ids, ¬ w.Gone key s := by
      simpa only [StoresFresh, ht] using hfresh
    refine h.moved rfl (fun b hb => hb) (fun key s hs => .inl hs) (fun key s hs => hs) ?_
      (clean_fetched hclean) rfl
    intro j s hgone hshut
    refine ⟨hshut.row, fun entry hentry => ?_⟩
    by_cases hj : j = key
    · subst hj
      simp only [Function.update_self, Option.some.injEq] at hentry
      subst hentry
      exact fun hmem => hfresh' s hmem hgone
    · exact hshut.cache entry ((Function.update_of_ne hj _ _).symm.trans hentry)
  | lookup key server =>
    cases hstep
    refine h.set ?_
    split
    · trivial
    · trivial
  | upsert key server =>
    simp only [AclWorld.taskStep] at hstep
    split at hstep
    · cases hstep
      refine h.granted fun t ht => ?_
      rcases List.mem_or_eq_of_mem_set ht with hold | rfl
      · exact h.tasks t hold
      · trivial
    · cases hstep
      exact h.set trivial
  | invalidate key =>
    cases hstep
    refine h.moved rfl (fun b hb => hb) (fun key s hs => .inl hs) (fun key s hs => hs) ?_ trivial
      rfl
    exact fun j s _ hshut => ⟨hshut.row, cache_dropped hshut.cache⟩
  | delete key server =>
    simp only [AclWorld.taskStep] at hstep
    split at hstep
    · cases hstep
      have hrows : ∀ j s, s ∈ ({ w.setTask k (.drop key server true) with
          rows := w.rows.filter fun r => ¬ (r.apiKeyId = key ∧ r.serverId = server) } :
            AclWorld).allowedIds j → s ∈ w.allowedIds j ∧ ¬ (j = key ∧ s = server) := by
        intro j s hs
        obtain ⟨r, hr, hkey, hallowed, hserver⟩ := mem_allowedIds.mp hs
        obtain ⟨hmem, hother⟩ := List.mem_filter.mp hr
        subst hkey hserver
        exact ⟨mem_allowedIds.mpr ⟨r, hmem, rfl, hallowed, rfl⟩, of_decide_eq_true hother⟩
      refine h.moved rfl (fun b hb => hb) (fun key s hs => .inl hs) (fun j s hs => (hrows j s hs).1)
        ?_ ?_ rfl
      · exact fun j s _ hshut => ⟨fun hs => hshut.row (hrows j s hs).1, hshut.cache⟩
      · exact fun _ hs => (hrows key server hs).2 ⟨rfl, rfl⟩
    · cases hstep
      exact h.set trivial
  | drop key server valid =>
    cases hstep
    refine h.moved rfl (fun b hb => hb) (fun key s hs => .inl hs) (fun key s hs => hs) ?_ ?_ rfl
    · exact fun j s _ hshut => ⟨hshut.row, cache_dropped hshut.cache⟩
    · intro hvalid
      refine ⟨hclean hvalid, fun entry hentry => ?_⟩
      simp at hentry
  | audit key server valid =>
    cases hstep
    refine h.moved rfl ?_ ?_ (fun key s hs => hs) (fun j s _ hshut => ⟨hshut.row, hshut.cache⟩)
      trivial rfl
    · intro b hb
      show b ∈ if valid then (key, server) :: w.barred else w.barred
      split
      · exact List.mem_cons_of_mem _ hb
      · exact hb
    · intro j s hs
      change (j, s) ∈ if valid then (key, server) :: w.barred else w.barred at hs
      split at hs
      · next hvalid =>
        rcases List.mem_cons.mp hs with heq | hold
        · obtain ⟨rfl, rfl⟩ := Prod.mk.inj heq
          have hshut := hclean hvalid
          exact .inr ⟨hshut.row, hshut.cache⟩
        · exact .inl hold
      · exact .inl hs
  | running key allowed barred => cases hstep
  | finished => cases hstep

theorem Guarded.use (h : w.Guarded) (hstep : w.step (.use k server) = some w') : w'.Guarded := by
  obtain ⟨t, ht, hrest⟩ := Option.bind_eq_some_iff.mp hstep
  split at hrest
  · next key allowed barred =>
    have hclean := h.tasks _ (List.mem_of_getElem? ht)
    split at hrest
    · next hpermits =>
      cases hrest
      have hnot : server ∉ barred := fun hmem =>
        (hclean server hmem).2 (by simpa [permits] using hpermits)
      have huses : (if server ∈ barred then (key, server) :: w.lateUses else w.lateUses) =
          w.lateUses := if_neg hnot
      rw [huses]
      exact h
    · cases hrest
  · cases hrest

theorem Guarded.spawn (h : w.Guarded) (ht : t.Clean w) :
    ({ w with tasks := w.tasks ++ [t] } : AclWorld).Guarded := by
  have hkept : ∀ t' : AclTask, t'.Clean w → t'.Clean { w with tasks := w.tasks ++ [t] } :=
    fun t' hclean => hclean.of_frame (fun b hb => hb) (fun key s hs => hs)
      fun key s _ hs => ⟨hs.row, hs.cache⟩
  refine ⟨fun key s hs => ?_, fun t' ht' => ?_, h.uses⟩
  · exact ⟨(h.barred key s hs).row, (h.barred key s hs).cache⟩
  · rcases List.mem_append.mp ht' with hold | hnew
    · exact hkept t' (h.tasks t' hold)
    · obtain rfl := List.mem_singleton.mp hnew
      exact hkept t' ht

theorem Guarded.step {a : AclAction} (h : w.Guarded) (hfresh : w.StoresFresh a)
    (hstep : w.step a = some w') : w'.Guarded := by
  cases a with
  | fetch key loop =>
    cases hstep
    refine h.spawn fun s hs => ?_
    obtain ⟨b, hb, rfl⟩ := List.mem_map.mp hs
    obtain ⟨hmem, hkey⟩ := List.mem_filter.mp hb
    rwa [← of_decide_eq_true hkey]
  | grant key server =>
    cases hstep
    exact h.spawn trivial
  | revoke key server =>
    cases hstep
    exact h.spawn trivial
  | step k ok =>
    obtain ⟨t, ht, hrest⟩ := Option.bind_eq_some_iff.mp hstep
    exact h.taskStep ht hfresh hrest
  | use k server => exact h.use hstep
  | tick ms =>
    cases hstep
    refine ⟨fun key s hs => ?_, fun t ht => ?_, h.uses⟩
    · exact ⟨(h.barred key s hs).row, (h.barred key s hs).cache⟩
    · exact (h.tasks t ht).of_frame (fun b hb => hb) (fun key s hs => hs)
        fun key s _ hs => ⟨hs.row, hs.cache⟩

theorem Guarded.init (rows : List AccessRow) : (AclWorld.init rows).Guarded where
  barred _ _ hs := by cases hs
  tasks _ ht := by cases ht
  uses := rfl

/-- In a run in which no fetch stores a server whose revocation has already dropped the cache, a
loop that starts after a revocation has returned executes no tool of the server until it is granted
again. -/
theorem revoked_server_unused {rows : List AccessRow}
    (h : Run AclWorld.step StoresFresh (AclWorld.init rows) w) : w.lateUses = [] := by
  have hguarded : w.Guarded :=
    h.invariant (.init rows) fun _ _ _ _ hg hfresh hstep => hg.step hfresh hstep
  exact hguarded.uses

/-- A loop fills the cache, the server is revoked, and another loop is left without it. -/
theorem revoked_after_fetch : ∃ w : AclWorld, w.barred = [(1, 7)] ∧
    w.tasks = [.running 1 [7] [], .finished, .running 1 [] [7]] ∧ w.lateUses = [] := by
  have hexec : (exec AclWorld.step (fun w a => decide (w.StoresFresh a))
      (AclWorld.init [{ apiKeyId := 1, serverId := 7, isAllowed := true }])
      [.fetch 1 true, .step 0 true, .step 0 true, .step 0 true, .use 0 7, .revoke 1 7,
        .step 1 true, .step 1 true, .step 1 true, .fetch 1 true, .step 2 true, .step 2 true,
        .step 2 true]).any
      (fun w => decide (w.barred = [(1, 7)] ∧
        w.tasks = [.running 1 [7] [], .finished, .running 1 [] [7]])) = true := by
    decide +kernel
  obtain ⟨w, hrun, hw⟩ := Run.exists_of_exec (fun _ _ h => of_decide_eq_true h) hexec
  obtain ⟨hbarred, htasks⟩ := of_decide_eq_true hw
  exact ⟨w, hbarred, htasks, revoked_server_unused hrun⟩

/-- A loop reads the rows, the server is revoked, and the loop stores what it read: a loop that
starts afterwards finds it. -/
theorem revoked_server_used : ∃ w : AclWorld,
    Run AclWorld.step (fun _ _ => True)
      (AclWorld.init [{ apiKeyId := 1, serverId := 7, isAllowed := true }]) w ∧
      w.barred = [(1, 7)] ∧ w.lateUses = [(1, 7)] := by
  have hexec : (exec AclWorld.step (fun _ _ => true)
      (AclWorld.init [{ apiKeyId := 1, serverId := 7, isAllowed := true }])
      [.fetch 1 true, .step 0 true, .step 0 true, .revoke 1 7, .step 1 true, .step 1 true,
        .step 1 true, .step 0 true, .fetch 1 true, .step 2 true, .use 2 7]).any
      (fun w => decide (w.barred = [(1, 7)] ∧ w.lateUses = [(1, 7)])) = true := by
    decide +kernel
  obtain ⟨w, hrun, hw⟩ :=
    @Run.exists_of_exec _ _ _ _ (fun _ _ => True) (fun _ _ _ => trivial) _ _ _ hexec
  exact ⟨w, hrun, of_decide_eq_true hw⟩

end AclWorld

end Veronex.Mcp
