import Mathlib.Data.List.Sort
import Veronex.Domain.Values
import Veronex.Foundation.Pool
import Veronex.Foundation.Transition

/-! # Login sessions and their tokens

The endpoints of `infrastructure/inbound/http/auth_handlers.rs` and `account_handlers.rs` that make,
refresh and revoke sessions, on the table of `session_repository.rs` and the keys of Valkey, and the
two middlewares that check an access token (`jwt_auth`, and `infer_auth` where it falls back to a
session).

A call of an endpoint is a list of statements and commands, and every one of them is a step of its
own: `Endpoint.step` says which effect is next, `World.apply` what it does. Any call may fail.
-/
namespace Veronex.Auth
open Concurrency
set_option autoImplicit false

/-! ## Data -/

/-- A row of `account_sessions`. `lineage` are the sessions it goes back to by refreshes, itself
first, and `exchangedFor` is the refresh token it was made for. -/
structure Session where
  id : Uuid
  accountId : Uuid
  jti : Uuid
  refreshTokenHash : Option Uuid
  createdAt : Millis
  expiresAt : Millis
  revokedAt : Option Millis
  lineage : List Uuid
  exchangedFor : Option Uuid
  deriving DecidableEq

/-- The claims of an access token. `exp` is `expiresAt` in whole seconds. -/
structure AccessToken where
  sub : Uuid
  jti : Uuid
  expiresAt : Millis
  permissions : List String
  lineage : List Uuid

def AccessToken.exp (t : AccessToken) : ℕ := t.expiresAt / 1000

/-- `chrono::Duration::hours(1)`. -/
def ACCESS_TOKEN_LIFETIME_MS : Millis := 3600000

/-- The `EX` of a key that is to last until `expiresAt`. -/
def ttlSecs (expiresAt now : Millis) : ℕ := max ((expiresAt - now) / 1000) 1

/-- Whether a key with this deadline is still there. -/
def visible (deadline : Option Millis) (now : Millis) : Bool := deadline.any fun d => now < d

/-! ## Endpoints -/

inductive LoginPc
  /-- `issue_access_token`, with the credentials verified. -/
  | issue
  | create (session : Session)
  | finished
  deriving DecidableEq

inductive RefreshPc
  | lookup
  /-- `atomic_claim_refresh_token` -/
  | claim (old : Session)
  | account (old : Session)
  | revoke (old : Session)
  | block (old : Session)
  | issue (old : Session)
  | create (old session : Session)
  | finished
  deriving DecidableEq

/-- `logout` and `revoke_session`, which differ in how they find the session. -/
inductive RevokePc
  | find
  | revoke (session : Session)
  | block (session : Session)
  | finished
  deriving DecidableEq

inductive RevokeAllPc
  | list
  | update (sessions : List Session)
  /-- The markers still to be set. `issuedBefore` counts the access tokens issued before the
  `UPDATE`. -/
  | block (sessions : List Session) (issuedBefore : ℕ)
  | finished (issuedBefore : Option ℕ)
  deriving DecidableEq

/-- A call. `roots` are the sessions of the account that were active when a `revoke_all` came. -/
inductive Endpoint
  | login (accountId : Uuid) (pc : LoginPc)
  | refresh (token : Uuid) (pc : RefreshPc)
  | logout (token : Uuid) (pc : RevokePc)
  | revokeSession (sessionId : Uuid) (pc : RevokePc)
  | revokeAll (accountId : Uuid) (roots : List Uuid) (pc : RevokeAllPc)
  deriving DecidableEq

inductive Effect
  | skip
  | insert (session : Session)
  | revoke (sessionId : Uuid)
  | revokeAccount (accountId : Uuid)
  /-- `revoke_jti` -/
  | block (session : Session)
  | claim (token : Uuid) (expiresAt : Millis)
  | issue (token : AccessToken)

/-- How a call turns out: whether it succeeds, the permissions it resolves, and which of several
markers is set next. -/
structure Choice where
  ok : Bool
  permissions : List String
  next : ℕ

structure World where
  now : Millis
  nextUuid : Uuid
  sessions : List Session
  /-- The deadlines of the keys `revoked_jti`. -/
  revokedJti : Uuid → Option Millis
  /-- The deadlines of the keys `refresh_blocklist`. -/
  claimed : Uuid → Option Millis
  /-- When a jti was last revoked. -/
  revocations : Uuid → Option Millis
  issued : List AccessToken
  endpoints : List Endpoint

namespace World
variable (w : World)

def getByRefreshHash (token : Uuid) : Option Session :=
  w.sessions.find? fun s => s.refreshTokenHash = some token && s.revokedAt.isNone

def getById (sessionId : Uuid) : Option Session := w.sessions.find? fun s => s.id = sessionId

def activeOf (accountId : Uuid) : List Session :=
  w.sessions.filter fun s => s.accountId = accountId && s.revokedAt.isNone

def listActive (accountId : Uuid) : List Session :=
  ((w.activeOf accountId).insertionSort fun a b => b.createdAt ≤ a.createdAt).take 1000

/-- The deadline of a key that is set now with the `EX` of `expiresAt`. -/
def deadline (expiresAt : Millis) : Millis := w.now + 1000 * ttlSecs expiresAt w.now

def apply : Effect → World
  | .skip => w
  | .insert session => { w with sessions := w.sessions ++ [session] }
  | .revoke sessionId =>
    { w with sessions := w.sessions.map fun s =>
        if s.id = sessionId then { s with revokedAt := some w.now } else s }
  | .revokeAccount accountId =>
    { w with sessions := w.sessions.map fun s =>
        if s.accountId = accountId && s.revokedAt.isNone then { s with revokedAt := some w.now }
        else s }
  | .block session =>
    { w with
      revokedJti := Function.update w.revokedJti session.jti (some (w.deadline session.expiresAt))
      revocations := Function.update w.revocations session.jti (some w.now) }
  | .claim token expiresAt =>
    { w with claimed := Function.update w.claimed token (some (w.deadline expiresAt)) }
  | .issue token => { w with issued := w.issued ++ [token], nextUuid := w.nextUuid + 1 }

/-- `issue_access_token` -/
def newToken (accountId : Uuid) (permissions : List String) (lineage : List Uuid) : AccessToken :=
  { sub := accountId, jti := w.nextUuid, expiresAt := w.now + ACCESS_TOKEN_LIFETIME_MS, permissions
    lineage := w.nextUuid :: lineage }

/-- `build_session`, with the ids that are made here. -/
def buildSession (accountId : Uuid) (lineage : List Uuid) (exchangedFor : Option Uuid) : Session :=
  { id := w.nextUuid, accountId, jti := w.nextUuid, refreshTokenHash := some w.nextUuid
    createdAt := w.now, expiresAt := w.now + ACCESS_TOKEN_LIFETIME_MS, revokedAt := none
    lineage := w.nextUuid :: lineage, exchangedFor }

end World

namespace Endpoint

def loginStep (w : World) (choice : Choice) (accountId : Uuid) : LoginPc → Option (Effect × LoginPc)
  | .issue =>
    if choice.ok then
      some (.issue (w.newToken accountId choice.permissions []),
        .create (w.buildSession accountId [] none))
    else some (.skip, .finished)
  -- a session that cannot be stored is not fatal
  | .create session => some (if choice.ok then .insert session else .skip, .finished)
  | .finished => none

def refreshStep (w : World) (choice : Choice) (token : Uuid) : RefreshPc → Option (Effect × RefreshPc)
  | .lookup =>
    match if choice.ok then w.getByRefreshHash token else none with
    | some old => some (.skip, .claim old)
    | none => some (.skip, .finished)
  | .claim old =>
    -- SET NX EX
    if choice.ok && !visible (w.claimed token) w.now then
      some (.claim token old.expiresAt, .account old)
    else some (.skip, .finished)
  | .account old => some (.skip, if choice.ok then .revoke old else .finished)
  | .revoke old => some (if choice.ok then .revoke old.id else .skip, .block old)
  | .block old => some (if choice.ok then .block old else .skip, .issue old)
  | .issue old =>
    if choice.ok then
      some (.issue (w.newToken old.accountId choice.permissions old.lineage),
        .create old (w.buildSession old.accountId old.lineage (some token)))
    else some (.skip, .finished)
  | .create _ session => some (if choice.ok then .insert session else .skip, .finished)
  | .finished => none

/-- `stops`: whether a failing `UPDATE` ends the call. -/
def revokeStep (choice : Choice) (found : Option Session) (stops : Bool) :
    RevokePc → Option (Effect × RevokePc)
  | .find =>
    match if choice.ok then found else none with
    | some session => some (.skip, .revoke session)
    | none => some (.skip, .finished)
  | .revoke session =>
    if choice.ok then some (.revoke session.id, .block session)
    else some (.skip, if stops then .finished else .block session)
  | .block session => some (if choice.ok then .block session else .skip, .finished)
  | .finished => none

def revokeAllStep (w : World) (choice : Choice) (accountId : Uuid) :
    RevokeAllPc → Option (Effect × RevokeAllPc)
  | .list =>
    some (.skip, if choice.ok then .update (w.listActive accountId) else .finished none)
  | .update sessions =>
    if choice.ok then some (.revokeAccount accountId, .block sessions w.issued.length)
    else some (.skip, .finished none)
  | .block sessions issuedBefore =>
    match sessions[choice.next]? with
    | some session =>
      some (if choice.ok then .block session else .skip,
        .block (sessions.eraseIdx choice.next) issuedBefore)
    | none => some (.skip, if sessions.isEmpty then .finished (some issuedBefore)
        else .block sessions issuedBefore)
  | .finished _ => none

def step (w : World) (choice : Choice) : Endpoint → Option (Effect × Endpoint)
  | .login accountId pc =>
    (loginStep w choice accountId pc).map fun m => (m.1, .login accountId m.2)
  | .refresh token pc => (refreshStep w choice token pc).map fun m => (m.1, .refresh token m.2)
  | .logout token pc =>
    (revokeStep choice (w.getByRefreshHash token) false pc).map fun m => (m.1, .logout token m.2)
  | .revokeSession sessionId pc =>
    (revokeStep choice (w.getById sessionId) true pc).map fun m => (m.1, .revokeSession sessionId m.2)
  | .revokeAll accountId roots pc =>
    (revokeAllStep w choice accountId pc).map fun m => (m.1, .revokeAll accountId roots m.2)

/-- A step of a call, by its kind. -/
inductive Moved (w : World) (choice : Choice) : Endpoint → Effect → Endpoint → Prop
  | login (accountId : Uuid) (pc : LoginPc) {effect : Effect} {pc' : LoginPc}
      (h : loginStep w choice accountId pc = some (effect, pc')) :
      Moved w choice (.login accountId pc) effect (.login accountId pc')
  | refresh (token : Uuid) (pc : RefreshPc) {effect : Effect} {pc' : RefreshPc}
      (h : refreshStep w choice token pc = some (effect, pc')) :
      Moved w choice (.refresh token pc) effect (.refresh token pc')
  | logout (token : Uuid) (pc : RevokePc) {effect : Effect} {pc' : RevokePc}
      (h : revokeStep choice (w.getByRefreshHash token) false pc = some (effect, pc')) :
      Moved w choice (.logout token pc) effect (.logout token pc')
  | revokeSession (sessionId : Uuid) (pc : RevokePc) {effect : Effect} {pc' : RevokePc}
      (h : revokeStep choice (w.getById sessionId) true pc = some (effect, pc')) :
      Moved w choice (.revokeSession sessionId pc) effect (.revokeSession sessionId pc')
  | revokeAll (accountId : Uuid) (roots : List Uuid) (pc : RevokeAllPc) {effect : Effect}
      {pc' : RevokeAllPc} (h : revokeAllStep w choice accountId pc = some (effect, pc')) :
      Moved w choice (.revokeAll accountId roots pc) effect (.revokeAll accountId roots pc')

theorem step_moved {w : World} {choice : Choice} {e e' : Endpoint} {effect : Effect}
    (h : e.step w choice = some (effect, e')) : e.Moved w choice effect e' := by
  cases e <;>
    (obtain ⟨⟨effect', pc'⟩, hm, he⟩ := Option.map_eq_some_iff.mp h
     obtain ⟨rfl, rfl⟩ := Prod.mk.inj he
     constructor
     exact hm)

end Endpoint

/-! ## Checking a token -/

inductive Middleware
  | jwtAuth
  | inferAuth
  deriving DecidableEq

inductive AuthError
  | invalidOrExpired
  | checkUnavailable
  | revoked
  | forbidden
  deriving DecidableEq

/-- `decode` with the leeway of the default `Validation`, for a token of this server. -/
def decodes (now : Millis) (t : AccessToken) : Bool := now / 1000 ≤ t.exp + 60

/-- `answered`: whether Valkey answers the `EXISTS`. `jwt_auth` rejects when it does not, `infer_auth`
takes the token as unrevoked. -/
def authenticate (w : World) (t : AccessToken) (answered : Bool) : Middleware → Except AuthError Unit
  | .jwtAuth =>
    if !decodes w.now t then .error .invalidOrExpired
    else if !answered then .error .checkUnavailable
    else if visible (w.revokedJti t.jti) w.now then .error .revoked
    else .ok ()
  | .inferAuth =>
    if !decodes w.now t then .error .invalidOrExpired
    else if answered && visible (w.revokedJti t.jti) w.now then .error .revoked
    else if "api_test" ∉ t.permissions then .error .forbidden
    else .ok ()

/-! ## Runs -/

inductive Call
  | login (accountId : Uuid)
  | refresh (token : Uuid)
  | logout (token : Uuid)
  | revokeSession (sessionId : Uuid)
  | revokeAll (accountId : Uuid)

def Call.endpoint (w : World) : Call → Endpoint
  | .login accountId => .login accountId .issue
  | .refresh token => .refresh token .lookup
  | .logout token => .logout token .find
  | .revokeSession sessionId => .revokeSession sessionId .find
  | .revokeAll accountId => .revokeAll accountId ((w.activeOf accountId).map Session.id) .list

inductive Action
  | tick (ms : Millis)
  | start (call : Call)
  | run (k : ℕ) (choice : Choice)
  /-- A request with an access token that was issued. -/
  | request (via : Middleware) (i : ℕ) (answered : Bool)

namespace World

def step (w : World) : Action → Option World
  | .tick ms => some { w with now := w.now + ms }
  | .start call => some { w with endpoints := w.endpoints ++ [call.endpoint w] }
  | .run k choice => do
    let e ← w.endpoints[k]?
    let (effect, next) ← e.step w choice
    return { w.apply effect with endpoints := advance w.endpoints k next [] }
  | .request _ i _ => do
    let _ ← w.issued[i]?
    return w

def init (now : Millis) : World :=
  { now, nextUuid := 0, sessions := [], revokedJti := fun _ => none, claimed := fun _ => none
    revocations := fun _ => none, issued := [], endpoints := [] }

end World

/-! ## Sessions at rest and in flight

Apart from `revokedAt` a session never changes, so the sessions are followed without it. -/

def Session.unrevoked (s : Session) : Session := { s with revokedAt := none }

def LoginPc.held : LoginPc → List Session
  | .create session => [session]
  | .issue | .finished => []

def RefreshPc.held : RefreshPc → List Session
  | .claim old | .account old | .revoke old | .block old | .issue old => [old]
  | .create old session => [old, session]
  | .lookup | .finished => []

def RevokePc.held : RevokePc → List Session
  | .revoke session | .block session => [session]
  | .find | .finished => []

def RevokeAllPc.held : RevokeAllPc → List Session
  | .update sessions | .block sessions _ => sessions
  | .list | .finished _ => []

def Endpoint.held : Endpoint → List Session
  | .login _ pc => pc.held
  | .refresh _ pc => pc.held
  | .logout _ pc | .revokeSession _ pc => pc.held
  | .revokeAll _ _ pc => pc.held

/-- The sessions of the table and those some call holds. -/
def World.known (w : World) : List Session :=
  (w.sessions ++ w.endpoints.flatMap Endpoint.held).map Session.unrevoked

section Known
variable {w w' : World} {s : Session} {e e' : Endpoint} {effect : Effect} {choice : Choice}

theorem World.table_known (h : s ∈ w.sessions) : s.unrevoked ∈ w.known :=
  List.mem_map_of_mem (List.mem_append_left _ h)

theorem World.held_known (he : e ∈ w.endpoints) (h : s ∈ e.held) : s.unrevoked ∈ w.known :=
  List.mem_map_of_mem (List.mem_append_right _ (List.mem_flatMap.mpr ⟨e, he, h⟩))

theorem World.getByRefreshHash_mem {token : Uuid} (h : w.getByRefreshHash token = some s) :
    s ∈ w.sessions :=
  List.mem_of_find?_eq_some h

theorem World.getById_mem {sessionId : Uuid} (h : w.getById sessionId = some s) : s ∈ w.sessions :=
  List.mem_of_find?_eq_some h

theorem World.listActive_mem {accountId : Uuid} (h : s ∈ w.listActive accountId) :
    s ∈ w.sessions := by
  have hsorted := List.mem_of_mem_take h
  rw [List.mem_insertionSort] at hsorted
  exact List.mem_of_mem_filter hsorted

/-- Where the lineage of a new session comes from: a login starts one, a refresh goes on with the
one of the session it holds. -/
def Endpoint.Continues (e : Endpoint) (accountId : Uuid) (lineage : List Uuid) : Prop :=
  lineage = [] ∨ ∃ old ∈ e.held, lineage = old.lineage ∧ accountId = old.accountId

theorem Endpoint.loginStep_held {accountId : Uuid} {pc pc' : LoginPc}
    (h : loginStep w choice accountId pc = some (effect, pc')) (hs : s ∈ pc'.held) :
    effect = .issue (w.newToken accountId choice.permissions []) ∧
      s = w.buildSession accountId [] none := by
  cases pc with
  | issue =>
    simp only [loginStep] at h
    split at h
    · obtain ⟨rfl, rfl⟩ : .issue (w.newToken accountId choice.permissions []) = effect ∧
        .create (w.buildSession accountId [] none) = pc' := by simpa using h
      exact ⟨rfl, List.mem_singleton.mp hs⟩
    · obtain ⟨-, rfl⟩ : Effect.skip = effect ∧ LoginPc.finished = pc' := by simpa using h
      cases hs
  | create session =>
    have hpc : LoginPc.finished = pc' := by simpa [loginStep] using congrArg (Option.map Prod.snd) h
    subst hpc
    cases hs
  | finished => cases h

theorem Endpoint.refreshStep_held {token : Uuid} {pc pc' : RefreshPc}
    (h : refreshStep w choice token pc = some (effect, pc')) (hs : s ∈ pc'.held) :
    s ∈ pc.held ∨ s ∈ w.sessions ∨ ∃ old ∈ pc.held,
      effect = .issue (w.newToken old.accountId choice.permissions old.lineage) ∧
      s = w.buildSession old.accountId old.lineage (some token) := by
  cases pc with
  | lookup =>
    simp only [refreshStep] at h
    split at h
    · next old hold =>
      obtain ⟨rfl, rfl⟩ : Effect.skip = effect ∧ RefreshPc.claim old = pc' := by simpa using h
      obtain rfl := List.mem_singleton.mp hs
      have hfound : w.getByRefreshHash token = some s := by
        by_cases hok : choice.ok = true <;> simp_all
      exact .inr (.inl (World.getByRefreshHash_mem hfound))
    · obtain ⟨-, rfl⟩ : Effect.skip = effect ∧ RefreshPc.finished = pc' := by simpa using h
      cases hs
  | issue old =>
    simp only [refreshStep] at h
    split at h
    · obtain ⟨rfl, rfl⟩ :
          .issue (w.newToken old.accountId choice.permissions old.lineage) = effect ∧
          .create old (w.buildSession old.accountId old.lineage (some token)) = pc' := by
        simpa using h
      rcases List.mem_cons.mp hs with rfl | hs
      · exact .inl (List.mem_singleton_self _)
      · exact .inr (.inr ⟨old, List.mem_singleton_self _, rfl, List.mem_singleton.mp hs⟩)
    · obtain ⟨-, rfl⟩ : Effect.skip = effect ∧ RefreshPc.finished = pc' := by simpa using h
      cases hs
  | claim old | account old | revoke old | block old =>
    refine .inl ?_
    simp only [refreshStep] at h
    grind [RefreshPc.held]
  | create old session =>
    have hpc : RefreshPc.finished = pc' := by
      simpa [refreshStep] using congrArg (Option.map Prod.snd) h
    subst hpc
    cases hs
  | finished => cases h

theorem Endpoint.revokeStep_held {found : Option Session} {stops : Bool} {pc pc' : RevokePc}
    (h : revokeStep choice found stops pc = some (effect, pc')) (hs : s ∈ pc'.held) :
    s ∈ pc.held ∨ found = some s := by
  cases pc with
  | find =>
    simp only [revokeStep] at h
    grind [RevokePc.held]
  | revoke session | block session =>
    simp only [revokeStep] at h
    grind [RevokePc.held]
  | finished => cases h

theorem Endpoint.revokeAllStep_held {accountId : Uuid} {pc pc' : RevokeAllPc}
    (h : revokeAllStep w choice accountId pc = some (effect, pc')) (hs : s ∈ pc'.held) :
    s ∈ pc.held ∨ s ∈ w.listActive accountId := by
  cases pc with
  | list =>
    simp only [revokeAllStep] at h
    grind [RevokeAllPc.held]
  | update sessions =>
    simp only [revokeAllStep] at h
    grind [RevokeAllPc.held]
  | block sessions issuedBefore =>
    simp only [revokeAllStep] at h
    grind [RevokeAllPc.held, List.mem_of_mem_eraseIdx]
  | finished => cases h

/-- What a call holds after a step: what it held, a row of the table, or the session built for the
token that is issued. -/
theorem Endpoint.step_held (h : e.step w choice = some (effect, e')) (hs : s ∈ e'.held) :
    s ∈ e.held ∨ s ∈ w.sessions ∨ ∃ accountId permissions lineage exchangedFor,
      effect = .issue (w.newToken accountId permissions lineage) ∧
      s = w.buildSession accountId lineage exchangedFor ∧ e.Continues accountId lineage := by
  cases Endpoint.step_moved h with
  | login accountId pc hm =>
    obtain ⟨heffect, hbuilt⟩ := loginStep_held hm hs
    exact .inr (.inr ⟨_, _, _, _, heffect, hbuilt, .inl rfl⟩)
  | refresh token pc hm =>
    obtain hheld | hrow | ⟨old, hold, heffect, hbuilt⟩ := refreshStep_held hm hs
    · exact .inl hheld
    · exact .inr (.inl hrow)
    · exact .inr (.inr ⟨_, _, _, _, heffect, hbuilt, .inr ⟨old, hold, rfl, rfl⟩⟩)
  | logout token pc hm =>
    exact (revokeStep_held hm hs).imp id fun hfound => .inl (World.getByRefreshHash_mem hfound)
  | revokeSession sessionId pc hm =>
    exact (revokeStep_held hm hs).imp id fun hfound => .inl (World.getById_mem hfound)
  | revokeAll accountId roots pc hm =>
    exact (revokeAllStep_held hm hs).imp id fun hrow => .inl (World.listActive_mem hrow)

/-- The session an effect is about, as the call holds it. -/
def Effect.session? : Effect → Option Session
  | .insert session | .block session => some session
  | .skip | .revoke _ | .revokeAccount _ | .claim .. | .issue _ => none

theorem Endpoint.step_session (h : e.step w choice = some (effect, e'))
    (hs : effect.session? = some s) : s ∈ e.held := by
  cases Endpoint.step_moved h with
  | login accountId pc hm =>
    cases pc <;> simp only [loginStep] at hm <;>
      grind [Effect.session?, Endpoint.held, LoginPc.held]
  | refresh token pc hm =>
    cases pc <;> simp only [refreshStep] at hm <;>
      grind [Effect.session?, Endpoint.held, RefreshPc.held]
  | logout token pc hm | revokeSession sessionId pc hm =>
    cases pc <;> simp only [revokeStep] at hm <;>
      grind [Effect.session?, Endpoint.held, RevokePc.held]
  | revokeAll accountId roots pc hm =>
    cases pc <;> simp only [revokeAllStep] at hm <;>
      grind [Effect.session?, Endpoint.held, RevokeAllPc.held, List.mem_of_getElem?]

/-- Access tokens are issued by logins and by refreshes. -/
theorem Endpoint.step_issue {t : AccessToken} (h : e.step w choice = some (.issue t, e')) :
    (∃ accountId, e = .login accountId .issue ∧ t = w.newToken accountId choice.permissions []) ∨
      ∃ token old, e = .refresh token (.issue old) ∧ choice.ok = true ∧
        t = w.newToken old.accountId choice.permissions old.lineage := by
  cases Endpoint.step_moved h with
  | login accountId pc hm =>
    refine .inl ⟨accountId, ?_⟩
    cases pc <;> simp only [loginStep] at hm <;> grind
  | refresh token pc hm =>
    cases pc with
    | issue old =>
      refine .inr ⟨token, old, rfl, ?_⟩
      simp only [refreshStep] at hm
      grind
    | _ => simp only [refreshStep] at hm; grind
  | logout token pc hm | revokeSession sessionId pc hm =>
    cases pc <;> simp only [revokeStep] at hm <;> grind
  | revokeAll accountId roots pc hm =>
    cases pc <;> simp only [revokeAllStep] at hm <;> grind

/-- Sessions are stored by logins and by refreshes. -/
theorem Endpoint.step_insert (h : e.step w choice = some (.insert s, e')) :
    (∃ accountId, e = .login accountId (.create s) ∧ e' = .login accountId .finished) ∨
      ∃ token old, e = .refresh token (.create old s) ∧ choice.ok = true ∧
        e' = .refresh token .finished := by
  cases Endpoint.step_moved h with
  | login accountId pc hm =>
    refine .inl ⟨accountId, ?_⟩
    cases pc <;> simp only [loginStep] at hm <;> grind
  | refresh token pc hm =>
    refine .inr ⟨token, ?_⟩
    cases pc <;> simp only [refreshStep] at hm <;> grind
  | logout token pc hm | revokeSession sessionId pc hm =>
    cases pc <;> simp only [revokeStep] at hm <;> grind
  | revokeAll accountId roots pc hm =>
    cases pc <;> simp only [revokeAllStep] at hm <;> grind

theorem Endpoint.step_continues {t : AccessToken} (h : e.step w choice = some (.issue t, e')) :
    ∃ accountId permissions lineage, t = w.newToken accountId permissions lineage ∧
      e.Continues accountId lineage := by
  rcases step_issue h with ⟨accountId, rfl, rfl⟩ | ⟨token, old, rfl, -, rfl⟩
  · exact ⟨_, _, _, rfl, .inl rfl⟩
  · exact ⟨_, _, _, rfl, .inr ⟨old, List.mem_singleton_self _, rfl, rfl⟩⟩

theorem World.apply_table (hs : s ∈ (w.apply effect).sessions) :
    (∃ row ∈ w.sessions, row.unrevoked = s.unrevoked) ∨ effect.session? = some s := by
  cases effect with
  | insert session =>
    rcases List.mem_append.mp hs with hs | hs
    · exact .inl ⟨s, hs, rfl⟩
    · exact .inr (congrArg some (List.mem_singleton.mp hs).symm)
  | revoke sessionId =>
    obtain ⟨row, hrow, rfl⟩ := List.mem_map.mp hs
    refine .inl ⟨row, hrow, ?_⟩
    split <;> rfl
  | revokeAccount accountId =>
    obtain ⟨row, hrow, rfl⟩ := List.mem_map.mp hs
    refine .inl ⟨row, hrow, ?_⟩
    split <;> rfl
  | skip | block session | claim token expiresAt | issue t => exact .inl ⟨s, hs, rfl⟩

theorem World.step_run {k : ℕ} (h : w.step (.run k choice) = some w') :
    ∃ e effect e', w.endpoints[k]? = some e ∧ e.step w choice = some (effect, e') ∧
      w' = { w.apply effect with endpoints := advance w.endpoints k e' [] } := by
  obtain ⟨e, he, h⟩ := Option.bind_eq_some_iff.mp h
  obtain ⟨m, hm, h⟩ := Option.bind_eq_some_iff.mp h
  exact ⟨e, m.1, m.2, he, hm, (Option.some.inj h).symm⟩

/-- `Endpoint.Continues`, for what is known in a state. -/
def World.Continues (w : World) (accountId : Uuid) (lineage : List Uuid) : Prop :=
  lineage = [] ∨ ∃ old ∈ w.known, lineage = old.lineage ∧ accountId = old.accountId

theorem Endpoint.Continues.known {accountId : Uuid} {lineage : List Uuid}
    (h : e.Continues accountId lineage) (he : e ∈ w.endpoints) :
    w.Continues accountId lineage := by
  rcases h with h | ⟨old, hold, hlineage, haccount⟩
  · exact .inl h
  · exact .inr ⟨old.unrevoked, World.held_known he hold, hlineage, haccount⟩

/-- The step from `w` to `w'` issues an access token. -/
def World.Issues (w w' : World) (accountId : Uuid) (permissions : List String)
    (lineage : List Uuid) : Prop :=
  w'.issued = w.issued ++ [w.newToken accountId permissions lineage] ∧
    w'.nextUuid = w.nextUuid + 1 ∧ w.Continues accountId lineage

theorem World.step_issued {a : Action} (h : w.step a = some w') :
    (w'.issued = w.issued ∧ w'.nextUuid = w.nextUuid) ∨
      ∃ accountId permissions lineage, w.Issues w' accountId permissions lineage := by
  cases a with
  | tick ms =>
    obtain rfl := Option.some.inj h
    exact .inl ⟨rfl, rfl⟩
  | start call =>
    obtain rfl := Option.some.inj h
    exact .inl ⟨rfl, rfl⟩
  | request via i answered =>
    obtain ⟨t, -, h⟩ := Option.bind_eq_some_iff.mp h
    obtain rfl := Option.some.inj h
    exact .inl ⟨rfl, rfl⟩
  | run k choice =>
    obtain ⟨e, effect, e', hk, he, rfl⟩ := World.step_run h
    cases effect with
    | issue t =>
      obtain ⟨accountId, permissions, lineage, rfl, hcont⟩ := Endpoint.step_continues he
      exact .inr ⟨_, _, _, rfl, rfl, hcont.known (List.mem_of_getElem? hk)⟩
    | _ => exact .inl ⟨rfl, rfl⟩

theorem World.step_nextUuid_le {a : Action} (h : w.step a = some w') : w.nextUuid ≤ w'.nextUuid := by
  rcases World.step_issued h with ⟨-, hnext⟩ | ⟨accountId, permissions, lineage, -, hnext, -⟩
  · exact Nat.le_of_eq hnext.symm
  · exact hnext ▸ Nat.le_succ _

/-- A session is known before the step, or it is built in it. -/
theorem World.step_known {a : Action} (h : w.step a = some w') (hs : s ∈ w'.known) :
    s ∈ w.known ∨ ∃ accountId permissions lineage exchangedFor,
      s = w.buildSession accountId lineage exchangedFor ∧
      w.Issues w' accountId permissions lineage := by
  cases a with
  | tick ms =>
    obtain rfl := Option.some.inj h
    exact .inl hs
  | start call =>
    obtain rfl := Option.some.inj h
    refine .inl ?_
    have hnone : (call.endpoint w).held = [] := by cases call <;> rfl
    simpa [World.known, hnone] using hs
  | request via i answered =>
    obtain ⟨t, -, h⟩ := Option.bind_eq_some_iff.mp h
    obtain rfl := Option.some.inj h
    exact .inl hs
  | run k choice =>
    obtain ⟨e, effect, e', hk, he, rfl⟩ := World.step_run h
    have hmem := List.mem_of_getElem? hk
    obtain ⟨others, hreplaced, -⟩ := advance_replaced hk e' []
    obtain ⟨x, hx, rfl⟩ := List.mem_map.mp hs
    rcases List.mem_append.mp hx with hx | hx
    · -- a row of the table
      rcases World.apply_table hx with ⟨row, hrow, hsame⟩ | hsession
      · exact .inl (hsame ▸ World.table_known hrow)
      · exact .inl (World.held_known hmem (Endpoint.step_session he hsession))
    · obtain ⟨y, hy, hheld⟩ := List.mem_flatMap.mp hx
      rcases hreplaced.mem_after.mp hy with rfl | hy | hy
      · rcases Endpoint.step_held he hheld with hheld | hrow |
          ⟨accountId, permissions, lineage, exchangedFor, rfl, rfl, hcont⟩
        · exact .inl (World.held_known hmem hheld)
        · exact .inl (World.table_known hrow)
        · exact .inr ⟨_, _, _, _, rfl, rfl, rfl, hcont.known hmem⟩
      · exact .inl (World.held_known (hreplaced.other_mem_before hy) hheld)
      · cases hy

/-- Each step either leaves the markers of revoked tokens alone or sets one, for a session that is
known. -/
theorem World.step_markers {a : Action} (h : w.step a = some w') :
    (w'.revokedJti = w.revokedJti ∧ w'.revocations = w.revocations) ∨
      ∃ s ∈ w.known,
        w'.revokedJti = Function.update w.revokedJti s.jti (some (w.deadline s.expiresAt)) ∧
        w'.revocations = Function.update w.revocations s.jti (some w.now) := by
  cases a with
  | tick ms =>
    obtain rfl := Option.some.inj h
    exact .inl ⟨rfl, rfl⟩
  | start call =>
    obtain rfl := Option.some.inj h
    exact .inl ⟨rfl, rfl⟩
  | request via i answered =>
    obtain ⟨t, -, h⟩ := Option.bind_eq_some_iff.mp h
    obtain rfl := Option.some.inj h
    exact .inl ⟨rfl, rfl⟩
  | run k choice =>
    obtain ⟨e, effect, e', hk, he, rfl⟩ := World.step_run h
    cases effect with
    | block session =>
      have hheld := Endpoint.step_session he (s := session) rfl
      exact .inr ⟨session.unrevoked, World.held_known (List.mem_of_getElem? hk) hheld, rfl, rfl⟩
    | _ => exact .inl ⟨rfl, rfl⟩

end Known

end Veronex.Auth
