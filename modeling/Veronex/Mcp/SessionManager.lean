import Veronex.Foundation.Pool
import Veronex.Foundation.Transition
import Mathlib.Data.List.Nodup
import Mathlib.Data.List.Infix

/-! # The session of an MCP server

`connect`, `disconnect` and `with_session` of `veronex-mcp/src/session.rs`, for one server. Every
operation on the maps and every await is a step, and those of different calls interleave;
`disconnect` is one. The ids a server issues are numbered.

`last` and `reinits` are kept for the statements: the last completed one of `connect` and
`disconnect`, and the sessions a new handshake was made for.
-/
namespace Veronex.Mcp
set_option autoImplicit false
open Concurrency

/-! ## Errors -/

def SESSION_EXPIRED_MARKER : String := "session expired"

/-- The phrases of `is_transport_error`. -/
def transportPhrases : List String :=
  ["error sending request", "connection closed", "connection reset", "broken pipe",
    "operation timed out", "dns error"]

/-- `str::contains`. -/
def contains (text phrase : String) : Bool := decide (phrase.toList <:+: text.toList)

def isTransportError (chain : List String) : Bool :=
  chain.any fun cause => transportPhrases.any fun phrase => contains cause phrase

/-- An error `with_session` retries after. The first of the chain is what the error displays as. -/
def retries (chain : List String) : Bool :=
  contains (chain.headD "") SESSION_EXPIRED_MARKER || isTransportError chain

/-! ## Calls -/

structure ServerConfig where
  serverName : String
  url : String
  timeoutSecs : ℕ
  deriving DecidableEq

structure McpSession where
  /-- `none`: the server issues no ids. -/
  sessionId : Option ℕ
  config : ServerConfig
  deriving DecidableEq

inductive SessionCall
  /-- `connect`, in its handshake. -/
  | connect (config : ServerConfig)
  /-- `with_session`: the snapshot, the call, the lock of the server and its mutex. -/
  | get
  | call (entry : McpSession)
  | entry (entry : McpSession)
  | lock (entry : McpSession) (mutex : ℕ)
  | compare (entry : McpSession) (mutex : ℕ)
  | remove (entry : McpSession) (mutex : ℕ)
  /-- The handshake of a re-initialisation. -/
  | handshake (entry : McpSession) (mutex : ℕ)
  | fresh (mutex : ℕ)
  | retry (mutex : ℕ)
  | finished
  deriving DecidableEq

namespace SessionCall

/-- The mutex a call waits for or holds. -/
def mutex : SessionCall → Option ℕ
  | .lock _ m | .compare _ m | .remove _ m | .handshake _ m | .fresh m | .retry m => some m
  | _ => none

def holds : SessionCall → Bool
  | .compare .. | .remove .. | .handshake .. | .fresh _ | .retry _ => true
  | _ => false

def holdsMutex (m : ℕ) (c : SessionCall) : Bool := c.holds && decide (c.mutex = some m)

/-- The call has decided to make a new session, and has not made it. -/
def reinitialises : SessionCall → Bool
  | .remove .. | .handshake .. => true
  | _ => false

/-- The call has taken the session away. -/
def away : SessionCall → Bool
  | .handshake .. => true
  | _ => false

end SessionCall

inductive LastDone
  | nothing
  | connected
  | connectFailed
  | disconnected
  deriving DecidableEq

structure SessionWorld where
  session : Option McpSession
  /-- The entry of the server in `reinit_locks`. -/
  reinitLock : Option ℕ
  nextLock : ℕ
  nextId : ℕ
  calls : List SessionCall
  last : LastDone
  reinits : List (Option ℕ)

/-- How what a call awaits ends. -/
inductive SessionAnswer
  | ok
  | failed (chain : List String)

inductive SessionAction
  | connect (config : ServerConfig)
  | disconnect
  | withSession
  | step (k : ℕ) (answer : SessionAnswer)
  /-- A call is dropped where it awaits: its own time limit, or its request is gone. -/
  | drop (k : ℕ)

namespace SessionWorld

def init : SessionWorld :=
  { session := none, reinitLock := none, nextLock := 0, nextId := 0, calls := [], last := .nothing
    reinits := [] }

section Steps
-- whether the server issues session ids
variable (issues : Bool) (w : SessionWorld)

def setCall (k : ℕ) (c : SessionCall) : SessionWorld := { w with calls := w.calls.set k c }

/-- The session of a handshake that has succeeded. -/
def established (config : ServerConfig) : SessionWorld :=
  { w with
    session := some { sessionId := if issues then some w.nextId else none, config }
    nextId := w.nextId + 1 }

def stepCall (k : ℕ) (answer : SessionAnswer) : SessionCall → Option SessionWorld
  | .connect config =>
    match answer with
    | .ok => some { (w.setCall k .finished).established issues config with last := .connected }
    | .failed _ => some { w.setCall k .finished with last := .connectFailed }
  | .get =>
    match w.session with
    | some entry => some (w.setCall k (.call entry))
    | none => some (w.setCall k .finished)
  | .call entry =>
    match answer with
    | .ok => some (w.setCall k .finished)
    | .failed chain => some (w.setCall k (if retries chain then .entry entry else .finished))
  | .entry entry =>
    match w.reinitLock with
    | some m => some (w.setCall k (.lock entry m))
    | none =>
      some { w.setCall k (.lock entry w.nextLock) with
        reinitLock := some w.nextLock, nextLock := w.nextLock + 1 }
  | .lock entry m =>
    if w.calls.any (SessionCall.holdsMutex m) then none
    else some (w.setCall k (.compare entry m))
  | .compare entry m =>
    let sessionChanged := w.session.elim false fun s => decide (s.sessionId ≠ entry.sessionId)
    some (w.setCall k (if sessionChanged then .fresh m else .remove entry m))
  | .remove entry m =>
    some { w.setCall k (.handshake entry m) with
      session := none, reinits := entry.sessionId :: w.reinits }
  | .handshake entry m =>
    match answer with
    | .ok => some ((w.setCall k (.fresh m)).established issues entry.config)
    | .failed _ => some (w.setCall k .finished)
  | .fresh m =>
    match w.session with
    | some _ => some (w.setCall k (.retry m))
    | none => some (w.setCall k .finished)
  | .retry _ => some (w.setCall k .finished)
  | .finished => none

def step : SessionAction → Option SessionWorld
  | .connect config => some { w with calls := w.calls ++ [.connect config] }
  | .disconnect => some { w with session := none, reinitLock := none, last := .disconnected }
  | .withSession => some { w with calls := w.calls ++ [.get] }
  | .step k answer => do
    let c ← w.calls[k]?
    w.stepCall issues k answer c
  | .drop k => do
    let c ← w.calls[k]?
    match c with
    | .connect _ | .call _ | .lock .. | .handshake .. | .retry _ => some (w.setCall k .finished)
    | _ => none

end Steps

/-- No call is in progress. -/
def Idle (w : SessionWorld) : Prop := ∀ c ∈ w.calls, c = .finished

instance (w : SessionWorld) : Decidable w.Idle :=
  inferInstanceAs (Decidable (∀ c ∈ w.calls, c = .finished))

structure SessionsRight (issues : Bool) (w : SessionWorld) : Prop where
  exists_iff : w.Idle → (w.session.isSome ↔ w.last = .connected)
  once : issues = true → w.reinits.Nodup

/-- No new handshake of a retry fails or is dropped, none is started without a session, and from its
start to its end no `disconnect` is made and no `connect` fails; nor does one over a session. -/
def Calm (w : SessionWorld) : SessionAction → Prop
  | .connect _ | .withSession => True
  | .disconnect => ∀ c ∈ w.calls, c.reinitialises = false
  | .step k answer =>
    match w.calls[k]?, answer with
    | some (.connect _), .failed _ =>
      w.session = none ∧ ∀ c ∈ w.calls, c.reinitialises = false
    | some (.handshake ..), .failed _ => False
    | some (.compare ..), _ => w.session.isSome = true
    | _, _ => True
  | .drop k =>
    match w.calls[k]? with
    | some (.handshake ..) => False
    | _ => True

instance (w : SessionWorld) (a : SessionAction) : Decidable (w.Calm a) := by
  cases a with
  | connect config => exact inferInstanceAs (Decidable True)
  | withSession => exact inferInstanceAs (Decidable True)
  | disconnect => exact inferInstanceAs (Decidable (∀ c ∈ w.calls, c.reinitialises = false))
  | step k answer =>
    unfold Calm
    dsimp only
    split <;> exact inferInstance
  | drop k =>
    unfold Calm
    dsimp only
    split <;> exact inferInstance

/-! ## What is kept -/

variable {issues : Bool} {w w' : SessionWorld} {k : ℕ} {c c' : SessionCall}
  {answer : SessionAnswer} {others : List SessionCall}

/-- The server has issued this id. -/
def Issued (w : SessionWorld) (id : Option ℕ) : Prop := ∃ n < w.nextId, id = some n

/-- A call whose mutex `disconnect` has discarded came with the id of a session that is gone. -/
def CallIds (w : SessionWorld) : SessionCall → Prop
  | .call e | .entry e => w.Issued e.sessionId
  | .lock e m | .compare e m =>
    w.Issued e.sessionId ∧
      (w.reinitLock = some m ∨ ∀ s, w.session = some s → s.sessionId ≠ e.sessionId)
  | .remove e m => w.Issued e.sessionId ∧ e.sessionId ∉ w.reinits ∧ w.reinitLock = some m
  | _ => True

/-- The ids of a server that issues them. No session is there for which a new handshake was made. -/
structure FreshIds (w : SessionWorld) : Prop where
  nodup : w.reinits.Nodup
  bound : ∀ id ∈ w.reinits, w.Issued id
  session : ∀ s, w.session = some s → s.sessionId ∉ w.reinits ∧ w.Issued s.sessionId
  calls : ∀ c ∈ w.calls, w.CallIds c
  one : ∀ m, w.calls.countP (SessionCall.holdsMutex m) ≤ 1

structure Sound (issues : Bool) (w : SessionWorld) : Prop where
  connected : ∀ c ∈ w.calls, c.reinitialises = true → w.last = .connected
  session : (∀ c ∈ w.calls, c.away = false) → (w.session.isSome ↔ w.last = .connected)
  ids : issues = true → w.FreshIds

theorem Sound.right (h : Sound issues w) : SessionsRight issues w where
  exists_iff hidle := h.session fun c hc => by
    rw [hidle c hc]
    rfl
  once hissues := (h.ids hissues).nodup

/-- While one call holds a mutex, no other call does. -/
theorem others_hold_nothing {calls : List SessionCall} {m : ℕ}
    (hrep : Replaced w.calls c c' [] others calls)
    (hone : w.calls.countP (SessionCall.holdsMutex m) ≤ 1) (hholds : c.holdsMutex m = true) :
    ∀ d ∈ others, d.holdsMutex m = false := by
  have hcount := hrep.countP_before (SessionCall.holdsMutex m)
  rw [if_pos hholds] at hcount
  have hzero : others.countP (SessionCall.holdsMutex m) = 0 := by omega
  intro d hd
  simpa using List.countP_eq_zero.mp hzero d hd

theorem reinitialises_of_away (h : c.away = true) : c.reinitialises = true := by
  cases c <;> first | rfl | cases h

/-! ### Ids -/

theorem Issued.mono {id : Option ℕ} (h : w.Issued id) (hid : w.nextId ≤ w'.nextId) :
    w'.Issued id := by
  obtain ⟨n, hn, rfl⟩ := h
  exact ⟨n, hn.trans_le hid, rfl⟩

theorem CallIds.mono {d : SessionCall} (h : w.CallIds d) (hid : w.nextId ≤ w'.nextId)
    (hreinits : w'.reinits = w.reinits)
    (hlock : ∀ m, w.reinitLock = some m → w'.reinitLock = some m)
    (hsession : ∀ s, w'.session = some s → w.session = some s ∨ ¬ w.Issued s.sessionId) :
    w'.CallIds d := by
  have hwaits : ∀ {e : McpSession} {m : ℕ}, w.Issued e.sessionId ∧ (w.reinitLock = some m ∨
      ∀ s, w.session = some s → s.sessionId ≠ e.sessionId) →
      w'.Issued e.sessionId ∧ (w'.reinitLock = some m ∨
        ∀ s, w'.session = some s → s.sessionId ≠ e.sessionId) := by
    rintro e m ⟨hissue, hm | hgone⟩
    · exact ⟨hissue.mono hid, .inl (hlock m hm)⟩
    · refine ⟨hissue.mono hid, .inr fun s hs heq => ?_⟩
      rcases hsession s hs with hold | hnew
      · exact hgone s hold heq
      · rw [heq] at hnew
        exact hnew hissue
  cases d with
  | call e => exact Issued.mono h hid
  | entry e => exact Issued.mono h hid
  | lock e m => exact hwaits h
  | compare e m => exact hwaits h
  | remove e m =>
    obtain ⟨hissue, hnot, hm⟩ := h
    refine ⟨hissue.mono hid, ?_, hlock m hm⟩
    rw [hreinits]
    exact hnot
  | _ => trivial

theorem FreshIds.moved (h : w.FreshIds) (hrep : Replaced w.calls c c' [] others w'.calls)
    (hnodup : w'.reinits.Nodup) (hbound : ∀ id ∈ w'.reinits, w'.Issued id)
    (hsession : ∀ s, w'.session = some s → s.sessionId ∉ w'.reinits ∧ w'.Issued s.sessionId)
    (hothers : ∀ d ∈ others, w.CallIds d → w'.CallIds d) (hcall : w'.CallIds c')
    (hholds : ∀ m, c'.holdsMutex m = true →
      c.holdsMutex m = true ∨ ∀ d ∈ w.calls, d.holdsMutex m = false) : w'.FreshIds := by
  refine ⟨hnodup, hbound, hsession, ?_, fun m => ?_⟩
  · exact hrep.forall_mem (fun d hd => hothers d hd (h.calls d (hrep.other_mem_before hd))) hcall
      (by rintro _ ⟨⟩)
  · have hone := h.one m
    have hbefore := hrep.countP_before (SessionCall.holdsMutex m)
    have hafter := hrep.countP_after (SessionCall.holdsMutex m)
    by_cases hc' : c'.holdsMutex m = true
    · rw [if_pos hc'] at hafter
      rcases hholds m hc' with hc | hnone
      · rw [if_pos hc] at hbefore
        omega
      · have hzero : others.countP (SessionCall.holdsMutex m) = 0 :=
          List.countP_eq_zero.mpr fun d hd => by simp [hnone d (hrep.other_mem_before hd)]
        omega
    · rw [if_neg hc'] at hafter
      omega

/-- A call goes on, and the ids and the session stay. -/
theorem FreshIds.quiet (h : w.FreshIds) (hrep : Replaced w.calls c c' [] others w'.calls)
    (hsession : w'.session = w.session) (hreinits : w'.reinits = w.reinits)
    (hid : w'.nextId = w.nextId) (hlock : ∀ m, w.reinitLock = some m → w'.reinitLock = some m)
    (hcall : w'.CallIds c')
    (hholds : ∀ m, c'.holdsMutex m = true →
      c.holdsMutex m = true ∨ ∀ d ∈ w.calls, d.holdsMutex m = false) : w'.FreshIds := by
  refine h.moved hrep ?_ ?_ ?_ (fun d _ hd => hd.mono (by omega) hreinits hlock fun s hs => ?_)
    hcall hholds
  · rw [hreinits]
    exact h.nodup
  · rw [hreinits]
    exact fun id hmem => (h.bound id hmem).mono hid.ge
  · rw [hsession, hreinits]
    exact fun s hs => ⟨(h.session s hs).1, (h.session s hs).2.mono hid.ge⟩
  · rw [hsession] at hs
    exact .inl hs

/-- The id of the session of a new handshake is new. -/
theorem FreshIds.established {config : ServerConfig} (h : w.FreshIds)
    (hrep : Replaced w.calls c c' [] others w'.calls)
    (hsession : w'.session = (w.established true config).session)
    (hreinits : w'.reinits = w.reinits) (hid : w'.nextId = w.nextId + 1)
    (hlock : w'.reinitLock = w.reinitLock) (hcall : w'.CallIds c')
    (hholds : ∀ m, c'.holdsMutex m = true → c.holdsMutex m = true) : w'.FreshIds := by
  have hfresh : ∀ s, w'.session = some s → s.sessionId = some w.nextId := by
    intro s hs
    rw [hsession] at hs
    rw [← Option.some.inj hs]
    rfl
  have hnot : ¬ w.Issued (some w.nextId) := by
    rintro ⟨n, hn, heq⟩
    have hn' := Option.some.inj heq
    omega
  refine h.moved hrep ?_ ?_ (fun s hs => ?_)
    (fun d _ hd => hd.mono (by omega) hreinits (fun m hm => hlock.trans hm) fun s hs => ?_) hcall
    fun m hm => .inl (hholds m hm)
  · rw [hreinits]
    exact h.nodup
  · rw [hreinits]
    intro id hmem
    obtain ⟨n, hn, rfl⟩ := h.bound id hmem
    exact ⟨n, by omega, rfl⟩
  · rw [hfresh s hs, hreinits]
    exact ⟨fun hmem => hnot (h.bound _ hmem), w.nextId, by omega, rfl⟩
  · right
    rw [hfresh s hs]
    exact hnot

/-! ### Steps -/

/-- A call goes on without having taken the session away or doing so now. -/
theorem Sound.quiet (h : Sound issues w) (hk : w.calls[k]? = some c) {lock : Option ℕ}
    {nextLock : ℕ} (haway : c.away = false)
    (hre : c'.reinitialises = true → w.last = .connected)
    (hlock : ∀ m, w.reinitLock = some m → lock = some m)
    (hcall : issues = true → w.FreshIds →
      CallIds { w.setCall k c' with reinitLock := lock, nextLock } c')
    (hholds : ∀ m, c'.holdsMutex m = true →
      c.holdsMutex m = true ∨ ∀ d ∈ w.calls, d.holdsMutex m = false) :
    Sound issues { w.setCall k c' with reinitLock := lock, nextLock } := by
  obtain ⟨others, hrep⟩ := set_replaced hk c'
  refine ⟨?_, fun hnone => ?_, fun hissues => ?_⟩
  · exact hrep.forall_mem (fun d hd => h.connected d (hrep.other_mem_before hd)) hre
      (by rintro _ ⟨⟩)
  · refine h.session fun d hd => ?_
    rcases hrep.mem_before.mp hd with rfl | hother
    · exact haway
    · exact hnone d (hrep.other_mem hother)
  · have hids := h.ids hissues
    exact hids.quiet hrep rfl rfl rfl hlock (hcall hissues hids) hholds

/-- A call ends without having taken the session away. -/
theorem Sound.ends (h : Sound issues w) (hk : w.calls[k]? = some c) (haway : c.away = false) :
    Sound issues (w.setCall k .finished) :=
  h.quiet hk haway (by rintro ⟨⟩) (fun _ hm => hm) (fun _ _ => trivial) (by rintro _ ⟨⟩)

theorem Sound.connectCall {config : ServerConfig} (h : Sound issues w)
    (hk : w.calls[k]? = some (.connect config)) (hcalm : w.Calm (.step k answer))
    (hstep : w.stepCall issues k answer (.connect config) = some w') : Sound issues w' := by
  obtain ⟨others, hrep⟩ := set_replaced hk .finished
  cases answer with
  | ok =>
    cases hstep
    refine ⟨fun _ _ _ => rfl, fun _ => iff_of_true rfl rfl, fun hissues => ?_⟩
    subst hissues
    exact (h.ids rfl).established hrep rfl rfl rfl rfl trivial (by rintro _ ⟨⟩)
  | failed chain =>
    simp only [Calm, hk] at hcalm
    obtain ⟨hnone, hcalm⟩ := hcalm
    cases hstep
    refine ⟨?_, fun _ => ?_, fun hissues => ?_⟩
    · refine hrep.forall_mem (fun d hd hre => ?_) (by rintro ⟨⟩) (by rintro _ ⟨⟩)
      rw [hcalm d (hrep.other_mem_before hd)] at hre
      cases hre
    · simp [setCall, hnone]
    · exact (h.ids hissues).quiet hrep rfl rfl rfl (fun _ hm => hm) trivial (by rintro _ ⟨⟩)

theorem Sound.entryCall {entry : McpSession} (h : Sound issues w)
    (hk : w.calls[k]? = some (.entry entry))
    (hstep : w.stepCall issues k answer (.entry entry) = some w') : Sound issues w' := by
  have hmem := List.mem_of_getElem? hk
  simp only [SessionWorld.stepCall] at hstep
  split at hstep
  · next m hm =>
    cases hstep
    exact h.quiet hk rfl (by rintro ⟨⟩) (fun _ hm' => hm')
      (fun _ hids => ⟨hids.calls _ hmem, .inl hm⟩) (by rintro _ ⟨⟩)
  · next hnone =>
    cases hstep
    refine h.quiet hk rfl (by rintro ⟨⟩) (fun m hm => ?_)
      (fun _ hids => ⟨hids.calls _ hmem, .inl rfl⟩) (by rintro _ ⟨⟩)
    rw [hnone] at hm
    cases hm

theorem Sound.lockCall {entry : McpSession} {m : ℕ} (h : Sound issues w)
    (hk : w.calls[k]? = some (.lock entry m))
    (hstep : w.stepCall issues k answer (.lock entry m) = some w') : Sound issues w' := by
  have hmem := List.mem_of_getElem? hk
  simp only [SessionWorld.stepCall] at hstep
  split at hstep
  · cases hstep
  · next hfree =>
    cases hstep
    refine h.quiet hk rfl (by rintro ⟨⟩) (fun _ hm => hm) (fun _ hids => hids.calls _ hmem)
      fun m' hm' => .inr fun d hd => ?_
    obtain rfl : m = m' := by
      simpa [SessionCall.holdsMutex, SessionCall.holds, SessionCall.mutex] using hm'
    by_contra hholds
    rw [Bool.not_eq_false] at hholds
    exact hfree (List.any_eq_true.mpr ⟨d, hd, hholds⟩)

theorem Sound.compareCall {entry : McpSession} {m : ℕ} (h : Sound issues w)
    (hk : w.calls[k]? = some (.compare entry m)) (hcalm : w.Calm (.step k answer))
    (hstep : w.stepCall issues k answer (.compare entry m) = some w') : Sound issues w' := by
  have hmem := List.mem_of_getElem? hk
  obtain ⟨s, hs⟩ : ∃ s, w.session = some s := by
    simp only [Calm, hk] at hcalm
    exact Option.isSome_iff_exists.mp hcalm
  have hlast : w.last = .connected := by
    by_cases haway : ∀ d ∈ w.calls, d.away = false
    · exact (h.session haway).mp (by rw [hs]; rfl)
    · obtain ⟨d, hd, hdaway⟩ := not_forall₂.mp haway
      exact h.connected d hd (reinitialises_of_away (Bool.not_eq_false _ ▸ hdaway))
  simp only [stepCall, hs, Option.elim_some] at hstep
  by_cases hchanged : s.sessionId ≠ entry.sessionId
  · simp only [hchanged, ne_eq, not_false_eq_true, decide_true, if_true] at hstep
    cases hstep
    exact h.quiet hk rfl (by rintro ⟨⟩) (fun _ hm => hm) (fun _ _ => trivial) fun _ hm => .inl hm
  · simp only [hchanged, decide_false, Bool.false_eq_true, if_false] at hstep
    cases hstep
    refine h.quiet hk rfl (fun _ => hlast) (fun _ hm => hm) (fun _ hids => ?_)
      fun _ hm => .inl hm
    -- the session is still the one the call failed on, so its mutex is the one in the map
    obtain ⟨hissue, hm | hgone⟩ := hids.calls _ hmem
    · refine ⟨hissue, ?_, hm⟩
      rw [← not_not.mp hchanged]
      exact (hids.session s hs).1
    · exact absurd (hgone s hs) hchanged

theorem Sound.removeCall {entry : McpSession} {m : ℕ} (h : Sound issues w)
    (hk : w.calls[k]? = some (.remove entry m))
    (hstep : w.stepCall issues k answer (.remove entry m) = some w') : Sound issues w' := by
  have hmem := List.mem_of_getElem? hk
  have hlast : w.last = .connected := h.connected _ hmem rfl
  obtain ⟨others, hrep⟩ := set_replaced hk (.handshake entry m)
  cases hstep
  refine ⟨fun _ _ _ => hlast, fun hnone => ?_, fun hissues => ?_⟩
  · have haway := hnone _ hrep.successor_mem
    cases haway
  · have hids := h.ids hissues
    obtain ⟨hissue, hnot, hlock⟩ := hids.calls _ hmem
    have hothers := others_hold_nothing hrep (hids.one m)
      (by simp [SessionCall.holdsMutex, SessionCall.holds, SessionCall.mutex])
    refine hids.moved hrep (List.nodup_cons.mpr ⟨hnot, hids.nodup⟩) (fun id hid => ?_)
      (by rintro _ ⟨⟩)
      (fun d hd hcall => ?_) trivial fun _ hm => .inl hm
    · rcases List.mem_cons.mp hid with rfl | hold
      · exact hissue
      · exact hids.bound id hold
    · cases d with
      | remove e m' =>
        -- it would hold the same mutex
        obtain ⟨-, -, hlock'⟩ := hcall
        obtain rfl : m = m' := Option.some.inj (hlock.symm.trans hlock')
        have hfree := hothers _ hd
        simp [SessionCall.holdsMutex, SessionCall.holds, SessionCall.mutex] at hfree
      | lock e m' => exact ⟨hcall.1, .inr (by rintro _ ⟨⟩)⟩
      | compare e m' => exact ⟨hcall.1, .inr (by rintro _ ⟨⟩)⟩
      | call e => exact hcall
      | entry e => exact hcall
      | _ => trivial

theorem Sound.handshakeCall {entry : McpSession} {m : ℕ} (h : Sound issues w)
    (hk : w.calls[k]? = some (.handshake entry m)) (hcalm : w.Calm (.step k answer))
    (hstep : w.stepCall issues k answer (.handshake entry m) = some w') : Sound issues w' := by
  have hlast : w.last = .connected := h.connected _ (List.mem_of_getElem? hk) rfl
  obtain ⟨others, hrep⟩ := set_replaced hk (.fresh m)
  cases answer with
  | failed chain =>
    simp only [Calm, hk] at hcalm
  | ok =>
    cases hstep
    refine ⟨fun _ _ _ => hlast, fun _ => iff_of_true rfl hlast, fun hissues => ?_⟩
    subst hissues
    exact (h.ids rfl).established hrep rfl rfl rfl rfl trivial fun _ hm => hm

theorem Sound.stepCall (h : Sound issues w) (hk : w.calls[k]? = some c)
    (hcalm : w.Calm (.step k answer)) (hstep : w.stepCall issues k answer c = some w') :
    Sound issues w' := by
  have hmem := List.mem_of_getElem? hk
  cases c with
  | connect config => exact h.connectCall hk hcalm hstep
  | get =>
    simp only [SessionWorld.stepCall] at hstep
    split at hstep
    · next s hs =>
      cases hstep
      exact h.quiet hk rfl (by rintro ⟨⟩) (fun _ hm => hm) (fun _ hids => (hids.session s hs).2)
        (by rintro _ ⟨⟩)
    · cases hstep
      exact h.ends hk rfl
  | call entry =>
    simp only [SessionWorld.stepCall] at hstep
    split at hstep
    · cases hstep
      exact h.ends hk rfl
    · cases hstep
      split
      · exact h.quiet hk rfl (by rintro ⟨⟩) (fun _ hm => hm) (fun _ hids => hids.calls _ hmem)
          (by rintro _ ⟨⟩)
      · exact h.ends hk rfl
  | entry entry => exact h.entryCall hk hstep
  | lock entry m => exact h.lockCall hk hstep
  | compare entry m => exact h.compareCall hk hcalm hstep
  | remove entry m => exact h.removeCall hk hstep
  | handshake entry m => exact h.handshakeCall hk hcalm hstep
  | fresh m =>
    simp only [SessionWorld.stepCall] at hstep
    split at hstep
    · cases hstep
      exact h.quiet hk rfl (by rintro ⟨⟩) (fun _ hm => hm) (fun _ _ => trivial) fun _ hm => .inl hm
    · cases hstep
      exact h.ends hk rfl
  | retry m =>
    cases hstep
    exact h.ends hk rfl
  | finished => cases hstep

/-- A new call, before its first step. -/
theorem Sound.spawn (h : Sound issues w) (hmutex : c.mutex = none) (hre : c.reinitialises = false)
    (hcall : ∀ w : SessionWorld, w.CallIds c) :
    Sound issues { w with calls := w.calls ++ [c] } := by
  refine ⟨fun d hd hd' => ?_, fun hnone => ?_, fun hissues => ?_⟩
  · rcases List.mem_append.mp hd with hold | hnew
    · exact h.connected d hold hd'
    · rw [List.mem_singleton.mp hnew, hre] at hd'
      cases hd'
  · exact h.session fun d hd => hnone d (List.mem_append_left _ hd)
  · have hids := h.ids hissues
    have hkeep : ∀ d, w.CallIds d → CallIds { w with calls := w.calls ++ [c] } d :=
      fun d hd => hd.mono le_rfl rfl (fun _ hm => hm) fun _ hs => .inl hs
    refine ⟨hids.nodup, hids.bound, hids.session, fun d hd => ?_, fun m => ?_⟩
    · rcases List.mem_append.mp hd with hold | hnew
      · exact hkeep d (hids.calls d hold)
      · rw [List.mem_singleton.mp hnew]
        exact hcall _
    · have hfree : c.holdsMutex m = false := by simp [SessionCall.holdsMutex, hmutex]
      rw [List.countP_append, List.countP_singleton, if_neg (by simp [hfree]), Nat.add_zero]
      exact hids.one m

theorem Sound.step {a : SessionAction} (h : Sound issues w) (hcalm : w.Calm a)
    (hstep : w.step issues a = some w') : Sound issues w' := by
  cases a with
  | connect config =>
    cases hstep
    exact h.spawn rfl rfl fun _ => trivial
  | withSession =>
    cases hstep
    exact h.spawn rfl rfl fun _ => trivial
  | disconnect =>
    cases hstep
    have hnone : ∀ d ∈ w.calls, d.reinitialises = false := hcalm
    refine ⟨fun d hd hre => ?_, fun _ => by simp, fun hissues => ?_⟩
    · rw [hnone d hd] at hre
      cases hre
    · have hids := h.ids hissues
      refine ⟨hids.nodup, hids.bound, by rintro _ ⟨⟩, fun d hd => ?_, hids.one⟩
      have hcall := hids.calls d hd
      cases d with
      | remove e m =>
        have hre := hnone _ hd
        cases hre
      | lock e m => exact ⟨hcall.1, .inr (by rintro _ ⟨⟩)⟩
      | compare e m => exact ⟨hcall.1, .inr (by rintro _ ⟨⟩)⟩
      | call e => exact hcall
      | entry e => exact hcall
      | _ => trivial
  | step k answer =>
    obtain ⟨c, hk, hrest⟩ := Option.bind_eq_some_iff.mp hstep
    exact h.stepCall hk hcalm hrest
  | drop k =>
    obtain ⟨c, hk, hrest⟩ := Option.bind_eq_some_iff.mp hstep
    cases c with
    | handshake entry m =>
      simp only [Calm, hk] at hcalm
    | connect config | call entry | lock entry m | retry m =>
      cases hrest
      exact h.ends hk rfl
    | _ => cases hrest

theorem Sound.init : Sound issues SessionWorld.init := by
  refine ⟨by rintro _ ⟨⟩, fun _ => by simp [SessionWorld.init], fun _ => ?_⟩
  exact ⟨List.nodup_nil, by rintro _ ⟨⟩, by rintro _ ⟨⟩, by rintro _ ⟨⟩, fun _ => Nat.zero_le _⟩

/-- In a calm run a session is there, whenever no call is in progress, exactly when the last
completed one of `connect` and `disconnect` was a successful `connect`; and a server that issues ids
gets at most one new handshake for each of its sessions. -/
theorem sessions_right_of_calm (h : Run (SessionWorld.step issues) Calm SessionWorld.init w) :
    SessionsRight issues w := by
  have hsound : Sound issues w :=
    h.invariant .init fun _ _ _ _ hs hcalm hstep => hs.step hcalm hstep
  exact hsound.right

/-- Two calls fail on one session: one makes a new session and the other finds it. -/
theorem one_handshake_for_two_calls : ∃ w : SessionWorld, SessionsRight true w ∧ w.Idle ∧
    w.session.isSome = true ∧ w.reinits = [some 0] := by
  let config : ServerConfig := { serverName := "weather", url := "http://weather-mcp/mcp",
                                 timeoutSecs := 30 }
  let expired : SessionAnswer := .failed ["MCP session expired (404) for http://weather-mcp/mcp"]
  have hexec : (exec (SessionWorld.step true) (fun w a => decide (w.Calm a)) SessionWorld.init
      [.connect config, .step 0 .ok, .withSession, .withSession, .step 1 .ok, .step 2 .ok,
        .step 1 expired, .step 2 expired, .step 1 .ok, .step 2 .ok, .step 1 .ok, .step 1 .ok,
        .step 1 .ok, .step 1 .ok, .step 1 .ok, .step 1 .ok, .step 2 .ok, .step 2 .ok, .step 2 .ok,
        .step 2 .ok]).any
      (fun w => decide (w.Idle ∧ w.session.isSome = true ∧
        w.reinits = [some 0])) = true := by
    decide +kernel
  obtain ⟨w, hrun, hw⟩ := Run.exists_of_exec (fun _ _ h => of_decide_eq_true h) hexec
  exact ⟨w, sessions_right_of_calm hrun, of_decide_eq_true hw⟩

/-- A call fails on a session and reaches its time limit during the new handshake: the server has no
session any more, although nothing disconnected it. And where the new handshake fails, the next call
that failed on the session makes another one. -/
theorem session_lost_by_retry :
    (∃ w : SessionWorld, Run (SessionWorld.step true) (fun _ _ => True) SessionWorld.init w ∧
      w.Idle ∧ w.last = .connected ∧ w.session = none) ∧
    ∃ w : SessionWorld, Run (SessionWorld.step true) (fun _ _ => True) SessionWorld.init w ∧
      w.Idle ∧ w.reinits = [some 0, some 0] := by
  let config : ServerConfig := { serverName := "weather", url := "http://weather-mcp/mcp",
                                 timeoutSecs := 30 }
  let reset : SessionAnswer := .failed ["error sending request for url (http://weather-mcp/mcp)"]
  have hdropped : (exec (SessionWorld.step true) (fun _ _ => true) SessionWorld.init
      [.connect config, .step 0 .ok, .withSession, .step 1 .ok, .step 1 reset, .step 1 .ok,
        .step 1 .ok, .step 1 .ok, .step 1 .ok, .drop 1]).any
      (fun w => decide (w.Idle ∧ w.last = .connected ∧ w.session = none)) = true := by
    decide +kernel
  have htwice : (exec (SessionWorld.step true) (fun _ _ => true) SessionWorld.init
      [.connect config, .step 0 .ok, .withSession, .withSession, .step 1 .ok, .step 2 .ok,
        .step 1 reset, .step 2 reset, .step 1 .ok, .step 2 .ok, .step 1 .ok, .step 1 .ok,
        .step 1 .ok, .step 1 reset, .step 2 .ok, .step 2 .ok, .step 2 .ok, .step 2 reset]).any
      (fun w => decide (w.Idle ∧ w.reinits = [some 0, some 0])) = true := by
    decide +kernel
  obtain ⟨w, hrun, hw⟩ :=
    @Run.exists_of_exec _ _ _ _ (fun _ _ => True) (fun _ _ _ => trivial) _ _ _ hdropped
  obtain ⟨v, hrun', hv⟩ :=
    @Run.exists_of_exec _ _ _ _ (fun _ _ => True) (fun _ _ _ => trivial) _ _ _ htwice
  exact ⟨⟨w, hrun, of_decide_eq_true hw⟩, v, hrun', of_decide_eq_true hv⟩

end SessionWorld

end Veronex.Mcp
