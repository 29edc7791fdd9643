import Veronex.Auth.Sessions

/-! # Refreshes and the revocation of all sessions

A refresh looks the session up, claims the token, revokes the session and stores the successor in
separate statements. The claim is a key that lasts only as long as the session; a
`revoke_all_account_sessions` revokes the rows that are there at its `UPDATE`.
-/
namespace Veronex.Auth
open Concurrency
set_option autoImplicit false

def LoginPc.stored? : LoginPc → Option Session
  | .create session => some session
  | .issue | .finished => none

def RefreshPc.stored? : RefreshPc → Option Session
  | .create _ session => some session
  | .lookup | .claim _ | .account _ | .revoke _ | .block _ | .issue _ | .finished => none

/-- Whether the token is claimed and the successor not stored yet. -/
def RefreshPc.granted : RefreshPc → Bool
  | .account _ | .revoke _ | .block _ | .issue _ | .create .. => true
  | .lookup | .claim _ | .finished => false

/-- The session a call is about to store. -/
def Endpoint.stored? : Endpoint → Option Session
  | .login _ pc => pc.stored?
  | .refresh _ pc => pc.stored?
  | .logout .. | .revokeSession .. | .revokeAll .. => none

/-- Whether a refresh holds the claim of a token and has not stored the successor yet. -/
def Endpoint.granted (token : Uuid) : Endpoint → ℕ
  | .refresh held pc => if held = token && pc.granted then 1 else 0
  | .login .. | .logout .. | .revokeSession .. | .revokeAll .. => 0

/-- Whether a call is about to store a session with the id. -/
def Endpoint.building (id : Uuid) (e : Endpoint) : ℕ :=
  if e.stored?.any fun s => s.id = id then 1 else 0

def LoginPc.Built (pc : LoginPc) : Prop :=
  ∀ s, pc.stored? = some s → s.exchangedFor = none ∧ s.lineage = [s.id]

def RefreshPc.Built (token : Uuid) : RefreshPc → Prop
  | .create old session =>
    session.exchangedFor = some token ∧ session.lineage = session.id :: old.lineage
  | .lookup | .claim _ | .account _ | .revoke _ | .block _ | .issue _ | .finished => True

/-- What a call has built comes from its own token and goes on with the session it holds. -/
def Endpoint.Built : Endpoint → Prop
  | .login _ pc => pc.Built
  | .refresh token pc => pc.Built token
  | .logout .. | .revokeSession .. | .revokeAll .. => True

/-- How many tokens were issued before the `UPDATE`, once it is done. -/
def RevokeAllPc.issuedBefore : RevokeAllPc → Option ℕ
  | .block _ issuedBefore => some issuedBefore
  | .finished issuedBefore => issuedBefore
  | .list | .update _ => none

namespace Effect

def stores (p : Session → Bool) : Effect → ℕ
  | .insert session => if p session then 1 else 0
  | _ => 0

def claims (token : Uuid) : Effect → ℕ
  | .claim claimed _ => if claimed = token then 1 else 0
  | _ => 0

def mints (id : Uuid) : Effect → ℕ
  | .issue token => if token.jti = id then 1 else 0
  | _ => 0

end Effect

def Session.ofToken (token : Uuid) (s : Session) : Bool := s.exchangedFor = some token

section Step
variable {w : World} {e e' : Endpoint} {effect : Effect} {choice : Choice}

theorem Endpoint.step_built (h : e.step w choice = some (effect, e')) : e'.Built := by
  cases Endpoint.step_moved h with
  | login accountId pc hm =>
    cases pc <;> simp only [loginStep] at hm <;>
      grind [Endpoint.Built, LoginPc.Built, LoginPc.stored?, World.buildSession]
  | refresh token pc hm =>
    cases pc <;> simp only [refreshStep] at hm <;>
      grind [Endpoint.Built, RefreshPc.Built, World.buildSession]
  | logout token pc hm | revokeSession sessionId pc hm | revokeAll accountId roots pc hm =>
    trivial

theorem Endpoint.step_granted (hbuilt : e.Built) (h : e.step w choice = some (effect, e'))
    (token : Uuid) :
    effect.stores (Session.ofToken token) + e'.granted token ≤
      e.granted token + effect.claims token := by
  cases Endpoint.step_moved h with
  | login accountId pc hm =>
    cases pc <;> simp only [loginStep] at hm <;>
      grind [Endpoint.Built, LoginPc.Built, LoginPc.stored?, Endpoint.granted, Effect.stores,
        Effect.claims, Session.ofToken]
  | refresh held pc hm =>
    cases pc <;> simp only [refreshStep] at hm <;>
      grind [Endpoint.Built, RefreshPc.Built, Endpoint.granted, RefreshPc.granted, Effect.stores,
        Effect.claims, Session.ofToken]
  | logout held pc hm | revokeSession sessionId pc hm =>
    cases pc <;> simp only [revokeStep] at hm <;>
      grind [Endpoint.granted, Effect.stores, Effect.claims]
  | revokeAll accountId roots pc hm =>
    cases pc <;> simp only [revokeAllStep] at hm <;>
      grind [Endpoint.granted, Effect.stores, Effect.claims]

theorem Endpoint.step_building (h : e.step w choice = some (effect, e')) (id : Uuid) :
    effect.stores (fun s => s.id = id) + e'.building id ≤ e.building id + effect.mints id := by
  cases Endpoint.step_moved h with
  | login accountId pc hm =>
    cases pc <;> simp only [loginStep] at hm <;>
      grind [Endpoint.building, Endpoint.stored?, LoginPc.stored?, Effect.stores, Effect.mints,
        World.buildSession, World.newToken]
  | refresh held pc hm =>
    cases pc <;> simp only [refreshStep] at hm <;>
      grind [Endpoint.building, Endpoint.stored?, RefreshPc.stored?, Effect.stores, Effect.mints,
        World.buildSession, World.newToken]
  | logout held pc hm | revokeSession sessionId pc hm =>
    cases pc <;> simp only [revokeStep] at hm <;>
      grind [Endpoint.building, Endpoint.stored?, Effect.stores, Effect.mints]
  | revokeAll accountId roots pc hm =>
    cases pc <;> simp only [revokeAllStep] at hm <;>
      grind [Endpoint.building, Endpoint.stored?, Effect.stores, Effect.mints]

/-- Tokens are claimed by refreshes, when no key of an earlier claim is there. -/
theorem Endpoint.step_claim {token : Uuid} {expiresAt : Millis}
    (h : e.step w choice = some (.claim token expiresAt, e')) :
    ∃ old, e = .refresh token (.claim old) ∧ choice.ok = true ∧
      visible (w.claimed token) w.now = false := by
  cases Endpoint.step_moved h with
  | refresh held pc hm =>
    cases pc <;> simp only [refreshStep] at hm <;> grind
  | login accountId pc hm =>
    cases pc <;> simp only [loginStep] at hm <;> grind
  | logout held pc hm | revokeSession sessionId pc hm =>
    cases pc <;> simp only [revokeStep] at hm <;> grind
  | revokeAll accountId roots pc hm =>
    cases pc <;> simp only [revokeAllStep] at hm <;> grind

theorem Endpoint.step_revokeAll {accountId : Uuid} {roots : List Uuid} {pc' : RevokeAllPc}
    (h : e.step w choice = some (effect, .revokeAll accountId roots pc')) :
    ∃ pc, e = .revokeAll accountId roots pc := by
  cases Endpoint.step_moved h with
  | revokeAll _ _ pc hm => exact ⟨pc, rfl⟩

/-- A call gets past its `UPDATE` by it. -/
theorem Endpoint.step_issuedBefore {accountId : Uuid} {roots : List Uuid} {pc pc' : RevokeAllPc}
    {n : ℕ} (h : (Endpoint.revokeAll accountId roots pc).step w choice =
      some (effect, .revokeAll accountId roots pc')) (hpc : pc'.issuedBefore = some n) :
    pc.issuedBefore = some n ∨ (effect = .revokeAccount accountId ∧ n = w.issued.length) := by
  cases Endpoint.step_moved h with
  | revokeAll _ _ _ hm =>
    cases pc <;> simp only [revokeAllStep] at hm <;> grind [RevokeAllPc.issuedBefore]

/-- The id that is made is the next one. -/
theorem Endpoint.step_mints (h : e.step w choice = some (effect, e')) {id : Uuid}
    (hmints : effect.mints id ≠ 0) : effect.mints id = 1 ∧ id = w.nextUuid := by
  cases effect with
  | issue t =>
    simp only [Effect.mints] at hmints ⊢
    split at hmints
    · next heq =>
      subst heq
      obtain ⟨accountId, permissions, lineage, rfl, -⟩ := Endpoint.step_continues h
      exact ⟨if_pos rfl, rfl⟩
    · exact absurd rfl hmints
  | _ => exact absurd rfl hmints

theorem Call.built (call : Call) (w : World) : (call.endpoint w).Built := by
  cases call <;> simp [Call.endpoint, Endpoint.Built, LoginPc.Built, LoginPc.stored?, RefreshPc.Built]

/-- Nothing but an insertion adds to the rows that a fixed field picks out. -/
theorem World.countP_apply {p : Session → Bool} (hp : ∀ s at', p { s with revokedAt := at' } = p s) :
    (w.apply effect).sessions.countP p = w.sessions.countP p + effect.stores p := by
  cases effect with
  | insert session => simp [World.apply, Effect.stores, List.countP_append, List.countP_singleton]
  | revoke sessionId =>
    simp only [World.apply, Effect.stores, List.countP_map, Nat.add_zero]
    refine List.countP_congr fun s _ => ?_
    simp only [Function.comp_apply]
    split
    · rw [hp]
    · rfl
  | revokeAccount accountId =>
    simp only [World.apply, Effect.stores, List.countP_map, Nat.add_zero]
    refine List.countP_congr fun s _ => ?_
    simp only [Function.comp_apply]
    split
    · rw [hp]
    · rfl
  | skip | block session | claim token expiresAt | issue t => rfl

end Step

namespace World
variable {w w' : World} {a : Action}

/-! ## One session for a refresh token -/

def created (w : World) (token : Uuid) : ℕ := w.sessions.countP (Session.ofToken token)

/-- Each claim stands for one session that is stored or will be. -/
structure Exchanged (w : World) : Prop where
  built : ∀ e ∈ w.endpoints, e.Built
  once : ∀ token, w.created token + weight (Endpoint.granted token) w.endpoints ≤
    if (w.claimed token).isSome then 1 else 0

/-- The `roots` of every call that is past its `UPDATE` are apart from the lineage. -/
def apart (w : World) (lineage : List Uuid) : Bool :=
  w.endpoints.all fun e => match e with
    | .revokeAll _ roots pc => pc.issuedBefore.isNone || roots.all fun r => r ∉ lineage
    | _ => true

/-- A token is not claimed again after the key of an earlier claim is gone, and a session of a family
that is revoked is not refreshed any further. -/
def timely (w : World) : Action → Bool
  | .run k choice => match w.endpoints[k]? with
    | some (.refresh token (.claim _)) => !choice.ok || visible (w.claimed token) w.now ||
        (w.claimed token).isNone
    | some (.refresh _ (.issue old)) => !choice.ok || w.apart old.lineage
    | some (.refresh _ (.create old _)) => !choice.ok || w.apart old.lineage
    | _ => true
  | _ => true

theorem apply_claimed {effect : Effect} (token : Uuid) :
    ((w.apply effect).claimed token).isSome =
      ((w.claimed token).isSome || decide (effect.claims token = 1)) := by
  cases effect with
  | claim claimed expiresAt =>
    by_cases h : token = claimed
    · simp [apply, Effect.claims, h]
    · simp [apply, Effect.claims, h, Ne.symm h]
  | _ => simp [apply, Effect.claims]

/-- A token that is claimed was not claimed before. -/
theorem step_claims {k : ℕ} {choice : Choice} {e e' : Endpoint} {effect : Effect}
    (hk : w.endpoints[k]? = some e) (htimely : w.timely (.run k choice) = true)
    (h : e.step w choice = some (effect, e')) {token : Uuid} (hclaims : effect.claims token ≠ 0) :
    effect.claims token = 1 ∧ w.claimed token = none := by
  cases effect with
  | claim claimed expiresAt =>
    simp only [Effect.claims] at hclaims ⊢
    split at hclaims
    · next heq =>
      subst heq
      obtain ⟨old, rfl, hok, hgone⟩ := Endpoint.step_claim h
      refine ⟨if_pos rfl, ?_⟩
      simpa [timely, hk, hok, hgone] using htimely
    · exact absurd rfl hclaims
  | _ => exact absurd rfl hclaims

theorem exchanged_init (now : Millis) : (init now).Exchanged where
  built := by simp [init]
  once := by simp [init, created]

theorem Exchanged.step (hw : w.Exchanged) (htimely : w.timely a = true) (h : w.step a = some w') :
    w'.Exchanged := by
  cases a with
  | tick ms =>
    obtain rfl := Option.some.inj h
    exact ⟨hw.built, hw.once⟩
  | request via i answered =>
    obtain ⟨t, -, h⟩ := Option.bind_eq_some_iff.mp h
    obtain rfl := Option.some.inj h
    exact hw
  | start call =>
    obtain rfl := Option.some.inj h
    refine ⟨fun e he => ?_, fun token => ?_⟩
    · rcases List.mem_append.mp he with he | he
      · exact hw.built e he
      · obtain rfl := List.mem_singleton.mp he
        exact call.built w
    · have hnone : (call.endpoint w).granted token = 0 := by
        cases call <;> simp [Call.endpoint, Endpoint.granted, RefreshPc.granted]
      have honce := hw.once token
      simpa [created, hnone] using honce
  | run k choice =>
    obtain ⟨e, effect, e', hk, he, rfl⟩ := step_run h
    obtain ⟨others, hreplaced, -⟩ := advance_replaced hk e' []
    refine ⟨hreplaced.forall_mem (fun x hx => hw.built x (hreplaced.other_mem_before hx))
      (Endpoint.step_built he) (by simp), fun token => ?_⟩
    have hcount : (w.apply effect).created token = w.created token +
        effect.stores (Session.ofToken token) := countP_apply fun _ _ => rfl
    have hgranted := Endpoint.step_granted (hw.built e hreplaced.task_mem) he token
    have honce := hw.once token
    rw [hreplaced.weight_before] at honce
    change (w.apply effect).created token + weight (Endpoint.granted token) _ ≤
      if ((w.apply effect).claimed token).isSome then 1 else 0
    rw [hcount, hreplaced.weight_after, weight_nil, apply_claimed]
    by_cases hclaims : effect.claims token = 0
    · simp only [hclaims, Nat.zero_ne_one, decide_false, Bool.or_false]
      omega
    · obtain ⟨hone, hfree⟩ := step_claims hk htimely he hclaims
      rw [hfree] at honce
      simp only [Option.isSome_none, Bool.false_eq_true, if_false] at honce
      simp only [hone, decide_true, Bool.or_true, if_true]
      omega

theorem created_le_one {now : Millis}
    (hrun : Run World.step (fun w a => w.timely a = true) (init now) w) (token : Uuid) :
    w.created token ≤ 1 := by
  have hw : w.Exchanged := hrun.invariant (I := Exchanged) (exchanged_init now)
    fun _ _ _ _ hw htimely hs => hw.step htimely hs
  have honce := hw.once token
  split at honce <;> omega

/-! ## Families -/

/-- Lineages stay within an account, ids are not used twice, and the roots of a call are rows of its
account. -/
structure Rooted (w : World) : Prop where
  built : ∀ e ∈ w.endpoints, e.Built
  known_lt : ∀ s ∈ w.known, s.id < w.nextUuid ∧ ∀ r ∈ s.lineage, r < w.nextUuid
  account : ∀ s ∈ w.known, ∀ old ∈ w.known, old.id ∈ s.lineage → s.accountId = old.accountId
  once : ∀ id, w.sessions.countP (fun s => s.id = id) + weight (Endpoint.building id) w.endpoints ≤ 1
  roots : ∀ accountId roots pc, .revokeAll accountId roots pc ∈ w.endpoints → ∀ r ∈ roots,
    ∃ row ∈ w.sessions, row.id = r ∧ row.accountId = accountId

theorem rooted_init (now : Millis) : (init now).Rooted where
  built := by simp [init]
  known_lt := by simp [known, init]
  account := by simp [known, init]
  once := by simp [init]
  roots := by simp [init]

/-- Rows stay, up to their revocation. -/
theorem mem_apply {effect : Effect} {row : Session} (hrow : row ∈ w.sessions) :
    ∃ row' ∈ (w.apply effect).sessions, row'.id = row.id ∧ row'.accountId = row.accountId := by
  cases effect with
  | insert session => exact ⟨row, List.mem_append_left _ hrow, rfl, rfl⟩
  | revoke sessionId =>
    refine ⟨_, List.mem_map_of_mem hrow, ?_⟩
    split <;> exact ⟨rfl, rfl⟩
  | revokeAccount accountId =>
    refine ⟨_, List.mem_map_of_mem hrow, ?_⟩
    split <;> exact ⟨rfl, rfl⟩
  | skip | block session | claim token expiresAt | issue t => exact ⟨row, hrow, rfl, rfl⟩

/-- A row after a step is one from before, revoked at least as much, or the one inserted. -/
theorem apply_mem {effect : Effect} {s : Session} (hs : s ∈ (w.apply effect).sessions) :
    (∃ row ∈ w.sessions, row.unrevoked = s.unrevoked ∧
      (row.revokedAt.isSome → s.revokedAt.isSome)) ∨ effect = .insert s := by
  cases effect with
  | insert session =>
    rcases List.mem_append.mp hs with hs | hs
    · exact .inl ⟨s, hs, rfl, id⟩
    · exact .inr (congrArg _ (List.mem_singleton.mp hs).symm)
  | revoke sessionId =>
    obtain ⟨row, hrow, rfl⟩ := List.mem_map.mp hs
    refine .inl ⟨row, hrow, ?_⟩
    split
    · exact ⟨rfl, fun _ => rfl⟩
    · exact ⟨rfl, id⟩
  | revokeAccount accountId =>
    obtain ⟨row, hrow, rfl⟩ := List.mem_map.mp hs
    refine .inl ⟨row, hrow, ?_⟩
    split
    · exact ⟨rfl, fun _ => rfl⟩
    · exact ⟨rfl, id⟩
  | skip | block session | claim token expiresAt | issue t => exact .inl ⟨s, hs, rfl, id⟩

namespace Rooted

theorem step_known_lt (hw : w.Rooted) (h : w.step a = some w') {s : Session} (hs : s ∈ w'.known) :
    s.id < w'.nextUuid ∧ ∀ r ∈ s.lineage, r < w'.nextUuid := by
  rcases step_known h hs with hs | ⟨accountId, permissions, lineage, exchangedFor, rfl, -, hnext, hcont⟩
  · obtain ⟨hid, hlineage⟩ := hw.known_lt s hs
    have hle := step_nextUuid_le h
    exact ⟨hid.trans_le hle, fun r hr => (hlineage r hr).trans_le hle⟩
  · rw [hnext]
    refine ⟨Nat.lt_succ_self _, fun r hr => ?_⟩
    rcases List.mem_cons.mp hr with rfl | hr
    · exact Nat.lt_succ_self _
    · rcases hcont with rfl | ⟨old, hold, rfl, -⟩
      · cases hr
      · exact Nat.lt_succ_of_lt ((hw.known_lt old hold).2 r hr)

theorem step_account (hw : w.Rooted) (h : w.step a = some w') {s old : Session} (hs : s ∈ w'.known)
    (hold : old ∈ w'.known) (hmem : old.id ∈ s.lineage) : s.accountId = old.accountId := by
  rcases step_known h hold with hold | ⟨accountId, permissions, lineage, exchangedFor, rfl, hissues⟩
  · rcases step_known h hs with hs | ⟨accountId, permissions, lineage, exchangedFor, rfl, -, -, hcont⟩
    · exact hw.account s hs old hold hmem
    · rcases List.mem_cons.mp hmem with hid | hrest
      · exact absurd hid (Nat.ne_of_lt (hw.known_lt old hold).1)
      · rcases hcont with rfl | ⟨before, hbefore, rfl, rfl⟩
        · cases hrest
        · exact hw.account before hbefore old hold hrest
  · rcases step_known h hs with hs | ⟨accountId', permissions', lineage', exchangedFor', rfl, hissues'⟩
    · exact absurd ((hw.known_lt s hs).2 _ hmem) (Nat.lt_irrefl _)
    · -- the session itself
      have htoken := hissues.1.symm.trans hissues'.1
      have hsub := congrArg AccessToken.sub (List.singleton_inj.mp (List.append_cancel_left htoken))
      exact hsub.symm

/-- No session has the id that is made next. -/
theorem fresh (hw : w.Rooted) : w.sessions.countP (fun s => s.id = w.nextUuid) +
    weight (Endpoint.building w.nextUuid) w.endpoints = 0 := by
  have hrows : w.sessions.countP (fun s => s.id = w.nextUuid) = 0 :=
    List.countP_eq_zero.mpr fun s hs hid =>
      absurd (of_decide_eq_true hid) (Nat.ne_of_lt (hw.known_lt _ (table_known hs)).1)
  have hcalls : weight (Endpoint.building w.nextUuid) w.endpoints = 0 := by
    refine (weight_eq_zero _).mpr fun e he => ?_
    refine if_neg fun hany => ?_
    obtain ⟨s, hs, hid⟩ := (Option.any_eq_true ..).mp hany
    have hheld : s ∈ e.held := by
      cases e with
      | login accountId pc => cases pc <;> simp_all [Endpoint.stored?, LoginPc.stored?, Endpoint.held, LoginPc.held]
      | refresh token pc => cases pc <;> simp_all [Endpoint.stored?, RefreshPc.stored?, Endpoint.held, RefreshPc.held]
      | logout token pc | revokeSession sessionId pc | revokeAll accountId roots pc => cases hs
    exact absurd (of_decide_eq_true hid) (Nat.ne_of_lt (hw.known_lt _ (held_known he hheld)).1)
  rw [hrows, hcalls]

theorem step (hw : w.Rooted) (h : w.step a = some w') : w'.Rooted where
  built := by
    cases a with
    | tick ms =>
      obtain rfl := Option.some.inj h
      exact hw.built
    | request via i answered =>
      obtain ⟨t, -, h⟩ := Option.bind_eq_some_iff.mp h
      obtain rfl := Option.some.inj h
      exact hw.built
    | start call =>
      obtain rfl := Option.some.inj h
      intro e he
      rcases List.mem_append.mp he with he | he
      · exact hw.built e he
      · obtain rfl := List.mem_singleton.mp he
        exact call.built w
    | run k choice =>
      obtain ⟨e, effect, e', hk, he, rfl⟩ := step_run h
      obtain ⟨others, hreplaced, -⟩ := advance_replaced hk e' []
      exact hreplaced.forall_mem (fun x hx => hw.built x (hreplaced.other_mem_before hx))
        (Endpoint.step_built he) (by simp)
  known_lt := fun _ hs => hw.step_known_lt h hs
  account := fun _ hs _ hold hmem => hw.step_account h hs hold hmem
  once := by
    cases a with
    | tick ms =>
      obtain rfl := Option.some.inj h
      exact hw.once
    | request via i answered =>
      obtain ⟨t, -, h⟩ := Option.bind_eq_some_iff.mp h
      obtain rfl := Option.some.inj h
      exact hw.once
    | start call =>
      obtain rfl := Option.some.inj h
      intro id
      have hnone : (call.endpoint w).building id = 0 := by cases call <;> rfl
      have honce := hw.once id
      simpa [hnone] using honce
    | run k choice =>
      obtain ⟨e, effect, e', hk, he, rfl⟩ := step_run h
      obtain ⟨others, hreplaced, -⟩ := advance_replaced hk e' []
      intro id
      have hcount : (w.apply effect).sessions.countP (fun s => s.id = id) =
          w.sessions.countP (fun s => s.id = id) + effect.stores fun s => s.id = id :=
        countP_apply fun _ _ => rfl
      have hbuilding := Endpoint.step_building he id
      change (w.apply effect).sessions.countP (fun s => s.id = id) +
        weight (Endpoint.building id) _ ≤ 1
      rw [hcount, hreplaced.weight_after, weight_nil]
      by_cases hmints : effect.mints id = 0
      · have honce := hw.once id
        rw [hreplaced.weight_before] at honce
        omega
      · -- an id that is made is nobody's yet
        obtain ⟨hone, rfl⟩ := Endpoint.step_mints he hmints
        have hfresh := hw.fresh
        rw [hreplaced.weight_before] at hfresh
        omega
  roots := by
    cases a with
    | tick ms =>
      obtain rfl := Option.some.inj h
      exact hw.roots
    | request via i answered =>
      obtain ⟨t, -, h⟩ := Option.bind_eq_some_iff.mp h
      obtain rfl := Option.some.inj h
      exact hw.roots
    | start call =>
      obtain rfl := Option.some.inj h
      intro accountId roots pc hmem r hr
      rcases List.mem_append.mp hmem with hmem | hmem
      · exact hw.roots accountId roots pc hmem r hr
      · cases call with
        | revokeAll account =>
          obtain ⟨rfl, rfl, rfl⟩ := Endpoint.revokeAll.inj (List.mem_singleton.mp hmem)
          obtain ⟨row, hrow, rfl⟩ := List.mem_map.mp hr
          have hactive := List.mem_filter.mp hrow
          have haccount : row.accountId = accountId := by
            have htest := hactive.2
            simp only [Bool.and_eq_true, decide_eq_true_eq] at htest
            exact htest.1
          exact ⟨row, hactive.1, rfl, haccount⟩
        | _ => simp [Call.endpoint] at hmem
    | run k choice =>
      obtain ⟨e, effect, e', hk, he, rfl⟩ := step_run h
      obtain ⟨others, hreplaced, -⟩ := advance_replaced hk e' []
      intro accountId roots pc hmem r hr
      have hold : ∃ pc₀, .revokeAll accountId roots pc₀ ∈ w.endpoints := by
        rcases hreplaced.mem_after.mp hmem with rfl | hmem | hmem
        · obtain ⟨pc₀, rfl⟩ := Endpoint.step_revokeAll he
          exact ⟨pc₀, hreplaced.task_mem⟩
        · exact ⟨pc, hreplaced.other_mem_before hmem⟩
        · cases hmem
      obtain ⟨pc₀, hmem₀⟩ := hold
      obtain ⟨row, hrow, hid, haccount⟩ := hw.roots accountId roots pc₀ hmem₀ r hr
      have hkept : ∃ row' ∈ (w.apply effect).sessions, row'.id = row.id ∧
          row'.accountId = row.accountId := mem_apply hrow
      obtain ⟨row', hrow', hid', haccount'⟩ := hkept
      exact ⟨row', hrow', hid'.trans hid, haccount'.trans haccount⟩

end Rooted

/-! ## What a revocation of all sessions leaves behind -/

/-- Every row of the families is revoked, and since the `UPDATE` no token was issued to them. -/
structure FamilyRevoked (w : World) (roots : List Uuid) (issuedBefore : ℕ) : Prop where
  rows : ∀ s ∈ w.sessions, ∀ r ∈ roots, r ∈ s.lineage → s.revokedAt.isSome
  tokens : ∀ t ∈ w.issued.drop issuedBefore, ∀ r ∈ roots, r ∉ t.lineage
  issued : issuedBefore ≤ w.issued.length

def FamiliesRevoked (w : World) : Prop :=
  ∀ accountId roots pc issuedBefore, .revokeAll accountId roots pc ∈ w.endpoints →
    pc.issuedBefore = some issuedBefore → w.FamilyRevoked roots issuedBefore

theorem apart_of_mem {lineage roots : List Uuid} {accountId : Uuid} {pc : RevokeAllPc} {n : ℕ}
    (h : w.apart lineage = true) (hmem : .revokeAll accountId roots pc ∈ w.endpoints)
    (hpc : pc.issuedBefore = some n) {r : Uuid} (hr : r ∈ roots) : r ∉ lineage := by
  have hroots := List.all_eq_true.mp h _ hmem
  simp only [hpc, Option.isNone_some, Bool.false_or] at hroots
  exact of_decide_eq_true (List.all_eq_true.mp hroots r hr)

namespace Rooted
variable {e e' : Endpoint} {effect : Effect} {choice : Choice} {k : ℕ} {accountId r : Uuid}
  {roots : List Uuid} {pc : RevokeAllPc} {n : ℕ}

/-- A root is a row, so no call is about to store a session with its id. -/
theorem root_ne_stored (hw : w.Rooted) (he : e ∈ w.endpoints)
    (hmem : .revokeAll accountId roots pc ∈ w.endpoints) (hr : r ∈ roots) {s : Session}
    (hs : e.stored? = some s) : r ≠ s.id := by
  rintro rfl
  obtain ⟨row, hrow, hid, -⟩ := hw.roots accountId roots pc hmem s.id hr
  have honce := hw.once s.id
  have hrows : 0 < w.sessions.countP fun x => x.id = s.id :=
    List.countP_pos_iff.mpr ⟨row, hrow, decide_eq_true hid⟩
  have hcalls := le_weight_of_mem (Endpoint.building s.id) he
  have hone : e.building s.id = 1 := by simp [Endpoint.building, hs]
  omega

theorem familyRevoked_apply (hw : w.Rooted) (hk : w.endpoints[k]? = some e)
    (htimely : w.timely (.run k choice) = true) (he : e.step w choice = some (effect, e'))
    (hmem : .revokeAll accountId roots pc ∈ w.endpoints) (hpc : pc.issuedBefore = some n)
    (h : w.FamilyRevoked roots n) : (w.apply effect).FamilyRevoked roots n where
  rows := by
    intro s hs r hr hlineage
    rcases apply_mem hs with ⟨row, hrow, hsame, hrevoked⟩ | rfl
    · have hsame' : row.unrevoked.lineage = s.unrevoked.lineage := congrArg Session.lineage hsame
      exact hrevoked (h.rows row hrow r hr (hsame'.symm ▸ hlineage))
    · have hin := List.mem_of_getElem? hk
      have hbuilt := hw.built e hin
      rcases Endpoint.step_insert he with ⟨account, rfl, -⟩ | ⟨token, old, rfl, hok, -⟩
      · rw [(hbuilt s rfl).2] at hlineage
        exact absurd (List.mem_singleton.mp hlineage) (hw.root_ne_stored hin hmem hr rfl)
      · rw [hbuilt.2] at hlineage
        rcases List.mem_cons.mp hlineage with hid | hlineage
        · exact absurd hid (hw.root_ne_stored hin hmem hr rfl)
        · have hapart : w.apart old.lineage = true := by simpa [timely, hk, hok] using htimely
          exact absurd hlineage (apart_of_mem hapart hmem hpc hr)
  tokens := by
    cases effect with
    | issue t =>
      intro t' ht' r hr
      change t' ∈ (w.issued ++ [t]).drop n at ht'
      rw [List.drop_append_of_le_length h.issued] at ht'
      rcases List.mem_append.mp ht' with ht' | ht'
      · exact h.tokens t' ht' r hr
      · obtain rfl := List.mem_singleton.mp ht'
        obtain ⟨row, hrow, rfl, -⟩ := hw.roots accountId roots pc hmem r hr
        have hlt := (hw.known_lt _ (table_known hrow)).1
        have hne : row.id ≠ w.nextUuid := Nat.ne_of_lt hlt
        rcases Endpoint.step_issue he with ⟨account, rfl, rfl⟩ | ⟨token, old, rfl, hok, rfl⟩
        · simpa [newToken] using hne
        · have hapart : w.apart old.lineage = true := by simpa [timely, hk, hok] using htimely
          simpa [newToken] using ⟨hne, apart_of_mem hapart hmem hpc hr⟩
    | _ => exact h.tokens
  issued := by
    cases effect with
    | issue t => exact h.issued.trans (by simp [World.apply])
    | _ => exact h.issued

/-- The `UPDATE` reaches every row of the families. -/
theorem familyRevoked_update (hw : w.Rooted)
    (hmem : .revokeAll accountId roots pc ∈ w.endpoints) :
    (w.apply (.revokeAccount accountId)).FamilyRevoked roots w.issued.length where
  rows := by
    intro s hs r hr hlineage
    obtain ⟨row, hrow, rfl⟩ := List.mem_map.mp hs
    obtain ⟨root, hroot, rfl, rfl⟩ := hw.roots accountId roots pc hmem r hr
    have hlineage' : root.id ∈ row.lineage := by
      split at hlineage <;> exact hlineage
    have haccount : row.unrevoked.accountId = root.unrevoked.accountId :=
      hw.account _ (table_known hrow) root.unrevoked (table_known hroot) hlineage'
    replace haccount : row.accountId = root.accountId := haccount
    cases hrevoked : row.revokedAt <;> simp [haccount, hrevoked]
  tokens := by
    intro t ht
    change t ∈ w.issued.drop w.issued.length at ht
    simp at ht
  issued := Nat.le_refl _

end Rooted

theorem FamiliesRevoked.step (hw : w.Rooted) (hrevoked : w.FamiliesRevoked)
    (htimely : w.timely a = true) (h : w.step a = some w') : w'.FamiliesRevoked := by
  cases a with
  | tick ms =>
    obtain rfl := Option.some.inj h
    exact fun _ _ _ _ hmem hpc => ⟨(hrevoked _ _ _ _ hmem hpc).rows,
      (hrevoked _ _ _ _ hmem hpc).tokens, (hrevoked _ _ _ _ hmem hpc).issued⟩
  | request via i answered =>
    obtain ⟨t, -, h⟩ := Option.bind_eq_some_iff.mp h
    obtain rfl := Option.some.inj h
    exact hrevoked
  | start call =>
    obtain rfl := Option.some.inj h
    intro accountId roots pc n hmem hpc
    rcases List.mem_append.mp hmem with hmem | hmem
    · have hfamily := hrevoked accountId roots pc n hmem hpc
      exact ⟨hfamily.rows, hfamily.tokens, hfamily.issued⟩
    · cases call with
      | revokeAll account =>
        obtain ⟨-, -, rfl⟩ := Endpoint.revokeAll.inj (List.mem_singleton.mp hmem)
        cases hpc
      | _ => simp [Call.endpoint] at hmem
  | run k choice =>
    obtain ⟨e, effect, e', hk, he, rfl⟩ := step_run h
    obtain ⟨others, hreplaced, -⟩ := advance_replaced hk e' []
    intro accountId roots pc n hmem hpc
    have hfamily : (w.apply effect).FamilyRevoked roots n := by
      rcases hreplaced.mem_after.mp hmem with rfl | hmem | hmem
      · obtain ⟨pc₀, rfl⟩ := Endpoint.step_revokeAll he
        rcases Endpoint.step_issuedBefore he hpc with hpc₀ | ⟨rfl, rfl⟩
        · exact hw.familyRevoked_apply hk htimely he hreplaced.task_mem hpc₀
            (hrevoked _ _ _ _ hreplaced.task_mem hpc₀)
        · exact hw.familyRevoked_update hreplaced.task_mem
      · have hold := hreplaced.other_mem_before hmem
        exact hw.familyRevoked_apply hk htimely he hold hpc (hrevoked _ _ _ _ hold hpc)
      · cases hmem
    exact ⟨hfamily.rows, hfamily.tokens, hfamily.issued⟩

/-- In a run of timely steps a refresh token is exchanged for at most one session, and once a
revocation of all sessions is done, the sessions that go back to one that was active when it came are
revoked and get no token any more. -/
theorem refreshed_once_and_revoked {now : Millis}
    (hrun : Run World.step (fun w a => w.timely a = true) (init now) w) :
    (∀ token, w.created token ≤ 1) ∧
      ∀ accountId roots n, .revokeAll accountId roots (.finished (some n)) ∈ w.endpoints →
        (∀ s ∈ w.sessions, ∀ r ∈ roots, r ∈ s.lineage → s.revokedAt.isSome) ∧
        ∀ t ∈ w.issued.drop n, ∀ r ∈ roots, r ∉ t.lineage := by
  have hinv : w.Rooted ∧ w.FamiliesRevoked :=
    hrun.invariant (I := fun w => w.Rooted ∧ w.FamiliesRevoked)
      ⟨rooted_init now, by simp [FamiliesRevoked, init]⟩
      fun _ _ _ _ hw htimely hs => ⟨hw.1.step hs, hw.2.step hw.1 htimely hs⟩
  refine ⟨created_le_one hrun, fun accountId roots n hmem => ?_⟩
  have hfamily := hinv.2 accountId roots _ n hmem rfl
  exact ⟨hfamily.rows, hfamily.tokens⟩

/-! ## Refreshes that come too late -/

/-- One call, taken through its first steps, all of which succeed. -/
def steps (k n : ℕ) : List Action :=
  List.replicate n (.run k { ok := true, permissions := [], next := 0 })

/-- A login, a refresh of its session and a revocation of all sessions. -/
def inTurn : List Action :=
  [Action.start (.login 7)] ++ steps 0 2 ++ [Action.start (.refresh 0)] ++ steps 1 7 ++
    [Action.start (.revokeAll 7)] ++ steps 2 4

theorem inTurn_revoked : ∃ w, Run World.step (fun w a => w.timely a = true) (init 0) w ∧
    w.created 0 = 1 ∧ (∀ token, w.created token ≤ 1) ∧
    .revokeAll 7 [1] (.finished (some 2)) ∈ w.endpoints ∧
    ∀ s ∈ w.sessions, ∀ r ∈ [1], r ∈ s.lineage → s.revokedAt.isSome := by
  have hexec : (exec World.step (fun w a => w.timely a) (init 0) inTurn).any (fun w =>
      w.created 0 = 1 ∧ .revokeAll 7 [1] (.finished (some 2)) ∈ w.endpoints) = true := by
    decide +kernel
  obtain ⟨w, hrun, hw⟩ := Run.exists_of_exec (fun _ _ h => h) hexec
  obtain ⟨hcreated, hmem⟩ := of_decide_eq_true hw
  obtain ⟨honce, hfamilies⟩ := refreshed_once_and_revoked hrun
  exact ⟨w, hrun, hcreated, honce, hmem, (hfamilies 7 [1] 2 hmem).1⟩

/-- Two refreshes look the session up; the key of the first one's claim is gone when the second one
claims the token. -/
def claimedTwice : List Action :=
  [Action.start (.login 7)] ++ steps 0 2 ++
    [Action.start (.refresh 0), Action.start (.refresh 0)] ++ steps 1 1 ++ steps 2 1 ++
    [Action.tick 3600000] ++ steps 1 1 ++ [Action.tick 1000] ++ steps 2 6 ++ steps 1 5

/-- A refresh is past its checks when all sessions of the account are revoked. -/
def overtaken : List Action :=
  [Action.start (.login 7)] ++ steps 0 2 ++ [Action.start (.refresh 0)] ++ steps 1 3 ++
    [Action.start (.revokeAll 7)] ++ steps 2 4 ++ steps 1 4

theorem refreshed_twice_and_unrevoked :
    (∃ w, Run World.step (fun _ _ => True) (init 0) w ∧ w.created 0 = 2) ∧
    ∃ w, Run World.step (fun _ _ => True) (init 0) w ∧
      .revokeAll 7 [0] (.finished (some 1)) ∈ w.endpoints ∧
      (∃ s ∈ w.sessions, 0 ∈ s.lineage ∧ s.revokedAt = none) ∧
      ∃ t ∈ w.issued.drop 1, 0 ∈ t.lineage := by
  have htwice : (exec World.step (fun _ _ => true) (init 0) claimedTwice).any
      (fun w => w.created 0 = 2) = true := by decide +kernel
  have hovertaken : (exec World.step (fun _ _ => true) (init 0) overtaken).any (fun w =>
      .revokeAll 7 [0] (.finished (some 1)) ∈ w.endpoints ∧
      (∃ s ∈ w.sessions, 0 ∈ s.lineage ∧ s.revokedAt = none) ∧
      ∃ t ∈ w.issued.drop 1, 0 ∈ t.lineage) = true := by decide +kernel
  obtain ⟨w, hrun, hw⟩ := @Run.exists_of_exec _ _ _ _ (fun _ _ => True) (fun _ _ _ => trivial) _ _ _
    htwice
  obtain ⟨w', hrun', hw'⟩ := @Run.exists_of_exec _ _ _ _ (fun _ _ => True) (fun _ _ _ => trivial)
    _ _ _ hovertaken
  exact ⟨⟨w, hrun, of_decide_eq_true hw⟩, w', hrun', of_decide_eq_true hw'⟩

end World

end Veronex.Auth
