import Mathlib.Algebra.Order.Group.Nat
import Veronex.Domain.Values
import Veronex.Foundation.BroadcastChannel
import Veronex.Foundation.Pool
import Veronex.Foundation.Transition

/-! # Event streams to browsers

The connection slots of `http/handlers.rs` (`try_acquire_sse`, `SseDropGuard`), the live feed of
`job_events_sse`, and the task of `bootstrap/background.rs` that keeps the last events for a replay.
The broadcast channels are the ones of `Foundation.BroadcastChannel`.

`connections_bounded`: how many connections hold a slot.
`feed_shows`: which job events a feed has shown.
-/
namespace Veronex.EventFeed
set_option autoImplicit false
open Concurrency Broadcast

def SSE_MAX_CONNECTIONS : ℕ := 100

def EVENT_BUFFER_CAPACITY : ℕ := 100

/-- The capacities of `job_event_tx` and `stats_tx`. -/
def JOB_EVENT_CAPACITY : ℕ := 256

def STATS_CAPACITY : ℕ := 16

structure JobStatusEvent where
  id : String
  status : String
  modelName : String
  providerType : String
  latencyMs : Option ℤ
  deriving DecidableEq

/-- An event and the time it is stamped with. -/
abbrev Stamped := JobStatusEvent × Millis

/-- What the feed yields; the stats are those of one tick. -/
inductive SseEvent
  | jobStatus (event : Stamped)
  | flowStats (tick : ℕ)
  deriving DecidableEq

def SseEvent.job? : SseEvent → Option JobStatusEvent
  | jobStatus event => some event.1
  | flowStats _ => none

/-- A feed. `joined` is where it subscribed to the job events and `replayEnd` where the ring buffer's
task was when it was read; nothing depends on the two. -/
structure Feed where
  jobPos : ℕ
  statsPos : ℕ
  joined : ℕ
  replayEnd : ℕ
  buffered : List Stamped
  sent : List SseEvent

/-- Where a connection is. From `accepted` on it has its `SseDropGuard`, until it is `closed`. -/
inductive Client
  | refusing
  | refused
  | accepted
  | jobSubscribed (jobPos : ℕ)
  | subscribed (jobPos statsPos : ℕ)
  | feeding (feed : Feed)
  /-- A stream of one of the other endpoints. -/
  | streaming
  | closed

structure World where
  jobs : List JobStatusEvent
  stats : List ℕ
  ringPos : ℕ
  ring : List Stamped
  sseConnections : ℕ
  clients : List Client

inductive Act
  /-- A job event is sent, by this instance or by the relay. -/
  | send (event : JobStatusEvent)
  | tick
  | ringRecv (now : Millis)
  | connect (feed : Bool)
  /-- The next statement of the endpoint, or the next round of its loop. -/
  | next (k : ℕ)
  | jobRecv (k : ℕ) (now : Millis)
  | statsRecv (k : ℕ)
  /-- The client is gone, or its time is up. -/
  | drop (k : ℕ)

/-- `fetch_add` and `fetch_sub` on an `AtomicU32`. -/
def fetchAdd (n : ℕ) : ℕ := (n + 1) % 2 ^ 32

def fetchSub (n : ℕ) : ℕ := (n + (2 ^ 32 - 1)) % 2 ^ 32

def Client.holds : Client → Bool
  | accepted | jobSubscribed _ | subscribed _ _ | feeding _ | streaming => true
  | refusing | refused | closed => false

def Client.isRefusing : Client → Bool
  | refusing => true
  | _ => false

/-- The first statements of `job_events_sse`, and the replay. -/
def nextOf (w : World) : Client → Option Client
  | .accepted => some (.jobSubscribed w.jobs.length)
  | .jobSubscribed jobPos => some (.subscribed jobPos w.stats.length)
  | .subscribed jobPos statsPos => some (.feeding
      { jobPos, statsPos, joined := jobPos, replayEnd := w.ringPos, buffered := w.ring, sent := [] })
  | .feeding f => match f.buffered with
    | event :: rest => some (.feeding { f with buffered := rest, sent := f.sent ++ [.jobStatus event] })
    | [] => none
  | _ => none

def jobRecvOf (w : World) (now : Millis) : Client → Option Client
  | .feeding f => match f.buffered with
    | [] => match recv JOB_EVENT_CAPACITY w.jobs f.jobPos with
      | some (.value event, pos) =>
        some (.feeding { f with jobPos := pos, sent := f.sent ++ [.jobStatus (event, now)] })
      | some (.lagged, pos) => some (.feeding { f with jobPos := pos })
      | none => none
    | _ :: _ => none
  | _ => none

def statsRecvOf (w : World) : Client → Option Client
  | .feeding f => match f.buffered with
    | [] => match recv STATS_CAPACITY w.stats f.statsPos with
      | some (.value tick, pos) =>
        some (.feeding { f with statsPos := pos, sent := f.sent ++ [.flowStats tick] })
      | some (.lagged, pos) => some (.feeding { f with statsPos := pos })
      | none => none
    | _ :: _ => none
  | _ => none

namespace World

def init : World :=
  { jobs := [], stats := [], ringPos := 0, ring := [], sseConnections := 0, clients := [] }

/-- One client goes on. -/
def advanceClient (w : World) (k : ℕ) (f : Client → Option Client) : Option World :=
  (w.clients[k]?.bind f).map fun c => { w with clients := w.clients.set k c }

def step (w : World) : Act → Option World
  | .send event => some { w with jobs := w.jobs ++ [event] }
  | .tick => some { w with stats := w.stats ++ [w.stats.length] }
  | .ringRecv now => match recv JOB_EVENT_CAPACITY w.jobs w.ringPos with
    | some (.value event, pos) =>
      some { w with ringPos := pos, ring := push EVENT_BUFFER_CAPACITY w.ring (event, now) }
    | some (.lagged, pos) => some { w with ringPos := pos }
    | none => none
  | .connect feed => some { w with
      sseConnections := fetchAdd w.sseConnections
      clients := w.clients ++ [if SSE_MAX_CONNECTIONS ≤ w.sseConnections then .refusing
        else if feed then .accepted else .streaming] }
  | .next k => match w.clients[k]? with
    | some .refusing => some { w with
        sseConnections := fetchSub w.sseConnections
        clients := w.clients.set k .refused }
    | _ => w.advanceClient k (nextOf w)
  | .jobRecv k now => w.advanceClient k (jobRecvOf w now)
  | .statsRecv k => w.advanceClient k (statsRecvOf w)
  | .drop k => match w.clients[k]? with
    | some c => if c.holds then some { w with
        sseConnections := fetchSub w.sseConnections
        clients := w.clients.set k .closed } else none
    | none => none

/-! ## Slots -/

/-- The connections that hold a slot. -/
def holding (w : World) : ℕ := w.clients.countP Client.holds

/-- Those that have added to the counter and are about to take it back. -/
def refusals (w : World) : ℕ := w.clients.countP Client.isRefusing

end World

/-- A connection comes only while fewer than `2 ^ 32 - 1` are open. -/
def FewOpen (w : World) : Act → Prop
  | .connect _ => w.holding + w.refusals < 2 ^ 32 - 1
  | _ => True

theorem advanceClient_some {w w' : World} {k : ℕ} {f : Client → Option Client}
    (h : w.advanceClient k f = some w') :
    ∃ c c', w.clients[k]? = some c ∧ f c = some c' ∧ w' = { w with clients := w.clients.set k c' } := by
  obtain ⟨c', hc', rfl⟩ := Option.map_eq_some_iff.mp h
  obtain ⟨c, hc, hf⟩ := Option.bind_eq_some_iff.mp hc'
  exact ⟨c, c', hc, hf, rfl⟩

theorem countP_set (p : Client → Bool) {clients : List Client} {k : ℕ} {c : Client}
    (h : clients[k]? = some c) (c' : Client) :
    (clients.set k c').countP p + (if p c then 1 else 0) =
      clients.countP p + (if p c' then 1 else 0) := by
  obtain ⟨others, hrep⟩ := set_replaced h c'
  have hbefore := hrep.1.countP_eq p
  have hafter := hrep.2.countP_eq p
  rw [List.append_nil] at hafter
  rw [hbefore, hafter, List.countP_cons, List.countP_cons]
  omega

theorem nextOf_holds {w : World} {c c' : Client} (h : nextOf w c = some c') :
    c.holds = true ∧ c'.holds = true ∧ c.isRefusing = false ∧ c'.isRefusing = false := by
  cases c with
  | feeding f =>
    simp only [nextOf] at h
    split at h
    · cases h
      exact ⟨rfl, rfl, rfl, rfl⟩
    · cases h
  | accepted => cases h; exact ⟨rfl, rfl, rfl, rfl⟩
  | jobSubscribed jobPos => cases h; exact ⟨rfl, rfl, rfl, rfl⟩
  | subscribed jobPos statsPos => cases h; exact ⟨rfl, rfl, rfl, rfl⟩
  | _ => cases h

theorem jobRecvOf_cases {w : World} {now : Millis} {c c' : Client} (h : jobRecvOf w now c = some c') :
    ∃ f r pos, c = .feeding f ∧ f.buffered = [] ∧ recv JOB_EVENT_CAPACITY w.jobs f.jobPos = some (r, pos) ∧
      ((∃ event, r = .value event ∧
          c' = .feeding { f with jobPos := pos, sent := f.sent ++ [.jobStatus (event, now)] }) ∨
        (r = .lagged ∧ c' = .feeding { f with jobPos := pos })) := by
  cases c with
  | feeding f =>
    simp only [jobRecvOf] at h
    split at h
    · next hbuf =>
      split at h
      · next event pos hrecv =>
        cases h
        exact ⟨f, _, pos, rfl, hbuf, hrecv, Or.inl ⟨event, rfl, rfl⟩⟩
      · next pos hrecv =>
        cases h
        exact ⟨f, _, pos, rfl, hbuf, hrecv, Or.inr ⟨rfl, rfl⟩⟩
      · cases h
    · cases h
  | _ => cases h

theorem statsRecvOf_cases {w : World} {c c' : Client} (h : statsRecvOf w c = some c') :
    ∃ f g, c = .feeding f ∧ c' = .feeding g ∧ g.jobPos = f.jobPos ∧ g.joined = f.joined ∧
      g.replayEnd = f.replayEnd ∧ g.buffered = f.buffered ∧
      g.sent.filterMap SseEvent.job? = f.sent.filterMap SseEvent.job? := by
  cases c with
  | feeding f =>
    simp only [statsRecvOf] at h
    split at h
    · split at h
      · next tick pos _ =>
        cases h
        refine ⟨f, _, rfl, rfl, rfl, rfl, rfl, rfl, ?_⟩
        simp [SseEvent.job?]
      · cases h
        exact ⟨f, _, rfl, rfl, rfl, rfl, rfl, rfl, rfl⟩
      · cases h
    · cases h
  | _ => cases h

/-- The counter is what it counts. -/
structure Counted (w : World) : Prop where
  exact : w.sseConnections = w.holding + w.refusals
  small : w.holding + w.refusals < 2 ^ 32
  slots : w.holding ≤ SSE_MAX_CONNECTIONS

theorem Counted.step {w w' : World} {a : Act} (h : Counted w) (hok : FewOpen w a)
    (hs : w.step a = some w') : Counted w' := by
  have hexact := h.exact
  have hsmall := h.small
  have hslots := h.slots
  have hsame : ∀ {k : ℕ} {c c' : Client}, w.clients[k]? = some c → c.holds = true ∧ c'.holds = true ∧
      c.isRefusing = false ∧ c'.isRefusing = false → Counted { w with clients := w.clients.set k c' } := by
    intro k c c' hc hkind
    obtain ⟨hcount, hcount', href, href'⟩ := hkind
    have hholds := countP_set Client.holds hc c'
    have hrefs := countP_set Client.isRefusing hc c'
    simp only [hcount, hcount', href, href'] at hholds hrefs
    constructor <;> simp only [World.holding, World.refusals] at * <;> omega
  cases a with
  | send event =>
    cases hs
    exact ⟨h.exact, h.small, h.slots⟩
  | tick =>
    cases hs
    exact ⟨h.exact, h.small, h.slots⟩
  | ringRecv now =>
    simp only [World.step] at hs
    split at hs
    · cases hs
      exact ⟨h.exact, h.small, h.slots⟩
    · cases hs
      exact ⟨h.exact, h.small, h.slots⟩
    · cases hs
  | connect feed =>
    cases hs
    have hfew : w.holding + w.refusals < 2 ^ 32 - 1 := hok
    have hadd : fetchAdd w.sseConnections = w.sseConnections + 1 := by
      rw [fetchAdd, Nat.mod_eq_of_lt (by omega)]
    by_cases hfull : SSE_MAX_CONNECTIONS ≤ w.sseConnections
    · constructor <;>
        simp only [World.holding, World.refusals, if_pos hfull, hadd, List.countP_append,
          List.countP_singleton, Client.holds, Client.isRefusing] at * <;> simp <;> omega
    · have hnew : ∀ c : Client, c.holds = true → c.isRefusing = false →
          Counted { w with sseConnections := fetchAdd w.sseConnections, clients := w.clients ++ [c] } := by
        intro c hc href
        constructor <;>
          simp only [World.holding, World.refusals, hadd, List.countP_append,
            List.countP_singleton, hc, href] at * <;> simp <;> omega
      rw [if_neg hfull]
      split
      · exact hnew _ rfl rfl
      · exact hnew _ rfl rfl
  | next k =>
    simp only [World.step] at hs
    split at hs
    · next hc =>
      cases hs
      have hholds := countP_set Client.holds hc Client.refused
      have hrefs := countP_set Client.isRefusing hc Client.refused
      simp only [Client.holds, Client.isRefusing] at hholds hrefs
      have hsub : fetchSub w.sseConnections = w.sseConnections - 1 := by
        have hpos : 0 < w.sseConnections := by
          simp only [World.holding, World.refusals] at *
          simp at hrefs
          omega
        rw [fetchSub]
        omega
      constructor <;> simp only [World.holding, World.refusals, hsub] at * <;> simp at * <;> omega
    · obtain ⟨c, c', hc, hf, rfl⟩ := advanceClient_some hs
      exact hsame hc (nextOf_holds hf)
  | jobRecv k now =>
    obtain ⟨c, c', hc, hf, rfl⟩ := advanceClient_some hs
    obtain ⟨f, r, pos, rfl, -, -, hnext⟩ := jobRecvOf_cases hf
    rcases hnext with ⟨event, -, rfl⟩ | ⟨-, rfl⟩
    · exact hsame hc ⟨rfl, rfl, rfl, rfl⟩
    · exact hsame hc ⟨rfl, rfl, rfl, rfl⟩
  | statsRecv k =>
    obtain ⟨c, c', hc, hf, rfl⟩ := advanceClient_some hs
    obtain ⟨f, g, rfl, rfl, -⟩ := statsRecvOf_cases hf
    exact hsame hc ⟨rfl, rfl, rfl, rfl⟩
  | drop k =>
    simp only [World.step] at hs
    split at hs
    · next c hc =>
      split at hs
      · next hcholds =>
        cases hs
        have hholds := countP_set Client.holds hc Client.closed
        have hrefs := countP_set Client.isRefusing hc Client.closed
        have hnot : c.isRefusing = false := by
          cases c <;> first | rfl | cases hcholds
        have hclosed : Client.closed.holds = false ∧ Client.closed.isRefusing = false := ⟨rfl, rfl⟩
        simp only [hcholds, hnot, hclosed] at hholds hrefs
        have hsub : fetchSub w.sseConnections = w.sseConnections - 1 := by
          have hpos : 0 < w.sseConnections := by
            simp only [World.holding, World.refusals] at *
            simp at hholds
            omega
          rw [fetchSub]
          omega
        constructor <;> simp only [World.holding, World.refusals, hsub] at * <;> simp at * <;> omega
      · cases hs
    · cases hs

/-- In every interleaving at most `SSE_MAX_CONNECTIONS` connections hold a slot, the counter is their
number and that of the refusals under way, and a connection is refused only while it counts
`SSE_MAX_CONNECTIONS` others. -/
theorem connections_bounded {w : World} (h : Run World.step FewOpen World.init w) :
    w.holding ≤ SSE_MAX_CONNECTIONS ∧ w.sseConnections = w.holding + w.refusals ∧
      ∀ feed w', w.step (.connect feed) = some w' →
        (w'.clients.getLast? = some .refusing ↔ SSE_MAX_CONNECTIONS ≤ w.holding + w.refusals) := by
  have hinit : Counted World.init := by
    constructor <;> simp [World.init, World.holding, World.refusals]
  have hcounted : Counted w := h.invariant hinit fun x y a _ hx hok hs => hx.step hok hs
  refine ⟨hcounted.slots, hcounted.exact, fun feed w' hs => ?_⟩
  cases hs
  rw [List.getLast?_concat, ← hcounted.exact]
  by_cases hfull : SSE_MAX_CONNECTIONS ≤ w.sseConnections
  · simp [hfull]
  · cases feed <;> simp [hfull]

def fewOpen (w : World) (_ : Act) : Bool := decide (w.clients.length < 1000)

theorem fewOpen_of {w : World} {a : Act} (h : fewOpen w a = true) : FewOpen w a := by
  cases a with
  | connect feed =>
    have hlength : w.clients.length < 1000 := of_decide_eq_true h
    have hholds : w.holding ≤ w.clients.length := List.countP_le_length
    have hrefs : w.refusals ≤ w.clients.length := List.countP_le_length
    show w.holding + w.refusals < 2 ^ 32 - 1
    omega
  | _ => trivial

/-- The 101st connection is refused. -/
theorem slot_refused : ∃ w, Run World.step FewOpen World.init w ∧
    w.clients.getLast? = some .refusing ∧ w.holding ≤ SSE_MAX_CONNECTIONS ∧
      w.sseConnections = w.holding + w.refusals := by
  have hexec : ((exec World.step fewOpen World.init (List.replicate 101 (Act.connect true))).any fun w =>
      (w.clients.getLast?.any Client.isRefusing)) = true := by
    decide +kernel
  obtain ⟨w, hrun, hw⟩ := Run.exists_of_exec (fun _ _ h => fewOpen_of h) hexec
  obtain ⟨hslots, hcounter, -⟩ := connections_bounded hrun
  refine ⟨w, hrun, ?_, hslots, hcounter⟩
  obtain ⟨c, hc, hrefusing⟩ := (Option.any_eq_true ..).mp hw
  rw [hc]
  cases c <;> first | rfl | cases hrefusing

/-! ## What a feed shows -/

/-- The job events a feed has shown and is still to replay. -/
def Feed.jobs (f : Feed) : List JobStatusEvent :=
  f.sent.filterMap SseEvent.job? ++ f.buffered.map Prod.fst

/-- The receiver of the ring buffer, or of a feed, is not behind by more than the channel keeps. -/
def KeepsUp (w : World) : Act → Prop
  | .ringRecv _ => w.jobs.length - w.ringPos ≤ JOB_EVENT_CAPACITY
  | .jobRecv k _ => ∀ f, w.clients[k]? = some (.feeding f) → w.jobs.length - f.jobPos ≤ JOB_EVENT_CAPACITY
  | _ => True

/-- What was received of a part of the channel: all of it if no receiver ever falls behind. -/
def Got (exact : Prop) (got part : List JobStatusEvent) : Prop := got.Sublist part ∧ (exact → got = part)

theorem Got.snoc {exact : Prop} {got part : List JobStatusEvent} (h : Got exact got part)
    (event : JobStatusEvent) : Got exact (got ++ [event]) (part ++ [event]) :=
  ⟨h.1.append (List.Sublist.refl _), fun he => by rw [h.2 he]⟩

theorem Got.behind {exact : Prop} {got part later : List JobStatusEvent} (h : Got exact got part)
    (hle : part.Sublist later) (hnot : ¬ exact) : Got exact got later :=
  ⟨h.1.trans hle, fun he => absurd he hnot⟩

/-- What a feed has shown, of the channel's events `jobs`. -/
structure Feed.Shows (exact : Prop) (jobs : List JobStatusEvent) (f : Feed) : Prop where
  joinedLe : f.joined ≤ f.jobPos
  posLe : f.jobPos ≤ jobs.length
  endLe : f.replayEnd ≤ jobs.length
  parts : ∃ replay live, f.jobs = replay ++ live ∧ (f.buffered ≠ [] → live = []) ∧
    replay.length ≤ EVENT_BUFFER_CAPACITY ∧ replay.Sublist (jobs.take f.replayEnd) ∧
    (exact → replay = lastOf EVENT_BUFFER_CAPACITY (jobs.take f.replayEnd)) ∧
    Got exact live (slice jobs f.joined f.jobPos)

def Client.Sound (exact : Prop) (jobs : List JobStatusEvent) : Client → Prop
  | jobSubscribed jobPos => jobPos ≤ jobs.length
  | subscribed jobPos _ => jobPos ≤ jobs.length
  | feeding f => f.Shows exact jobs
  | _ => True

/-- The ring buffer holds the last events its task got. -/
structure RingSound (exact : Prop) (w : World) : Prop where
  posLe : w.ringPos ≤ w.jobs.length
  got : ∃ got : List Stamped, w.ring = lastOf EVENT_BUFFER_CAPACITY got ∧
    Got exact (got.map Prod.fst) (w.jobs.take w.ringPos)

structure FeedsSound (exact : Prop) (w : World) : Prop where
  ring : RingSound exact w
  clients : ∀ c ∈ w.clients, c.Sound exact w.jobs

section Shows
variable {exact : Prop} {w w' : World}

theorem Feed.Shows.send {jobs : List JobStatusEvent} {f : Feed} (h : f.Shows exact jobs)
    (event : JobStatusEvent) : f.Shows exact (jobs ++ [event]) := by
  have hposLe := h.posLe
  have hendLe := h.endLe
  obtain ⟨replay, live, hjobs, hbuf, hlength, hsub, hreplay, hlive⟩ := h.parts
  have htake : (jobs ++ [event]).take f.replayEnd = jobs.take f.replayEnd :=
    List.take_append_of_le_length hendLe
  have hslice : slice (jobs ++ [event]) f.joined f.jobPos = slice jobs f.joined f.jobPos :=
    slice_append hposLe [event]
  have hlong : (jobs ++ [event]).length = jobs.length + 1 := by simp
  refine ⟨h.joinedLe, by omega, by omega, replay, live, hjobs, hbuf, hlength, ?_, ?_, ?_⟩
  · rwa [htake]
  · rwa [htake]
  · rwa [hslice]

theorem Client.Sound.send {jobs : List JobStatusEvent} {c : Client} (h : c.Sound exact jobs)
    (event : JobStatusEvent) : c.Sound exact (jobs ++ [event]) := by
  have hlong : (jobs ++ [event]).length = jobs.length + 1 := by simp
  cases c with
  | jobSubscribed jobPos =>
    have hle : jobPos ≤ jobs.length := h
    show jobPos ≤ (jobs ++ [event]).length
    omega
  | subscribed jobPos statsPos =>
    have hle : jobPos ≤ jobs.length := h
    show jobPos ≤ (jobs ++ [event]).length
    omega
  | feeding f => exact Feed.Shows.send h event
  | _ => trivial

theorem RingSound.recv (h : RingSound exact w) {now : Millis}
    (hok : exact → KeepsUp w (.ringRecv now)) (hs : w.step (.ringRecv now) = some w') :
    RingSound exact w' := by
  obtain ⟨got, hring, hgot⟩ := h.got
  simp only [World.step] at hs
  split at hs
  · next event pos hrecv =>
    cases hs
    rcases recv_cases hrecv with ⟨x, hx, hat, rfl, -⟩ | ⟨hx, -⟩
    · cases hx
      have hpos := (List.getElem?_eq_some_iff.mp hat).1
      refine ⟨hpos, got ++ [(event, now)], ?_, ?_⟩
      · rw [hring]
        exact lastOf_push (by decide) got (event, now)
      · have hsnoc := hgot.snoc event
        rw [← slice_zero, ← slice_succ (Nat.zero_le _) hat] at hsnoc
        simpa [slice_zero] using hsnoc
    · cases hx
  · next pos hrecv =>
    cases hs
    rcases recv_cases hrecv with ⟨x, hx, -⟩ | ⟨-, hfar, hlt, hle⟩
    · cases hx
    · have hnot : ¬ exact := by
        intro he
        have hup : w.jobs.length - w.ringPos ≤ JOB_EVENT_CAPACITY := hok he
        omega
      refine ⟨hle, got, hring, hgot.behind ?_ hnot⟩
      exact List.take_sublist_take_left (Nat.le_of_lt hlt)
  · cases hs

theorem Client.Sound.next {c c' : Client} (hring : RingSound exact w) (h : c.Sound exact w.jobs)
    (hn : nextOf w c = some c') : c'.Sound exact w.jobs := by
  cases c with
  | accepted =>
    cases hn
    exact Nat.le_refl _
  | jobSubscribed jobPos =>
    cases hn
    exact h
  | subscribed jobPos statsPos =>
    cases hn
    obtain ⟨got, hbuf, hgot⟩ := hring.got
    have hpos : jobPos ≤ w.jobs.length := h
    have hlast : w.ring.map Prod.fst = lastOf EVENT_BUFFER_CAPACITY (got.map Prod.fst) := by
      rw [hbuf, lastOf_map]
    refine ⟨Nat.le_refl _, hpos, hring.posLe, w.ring.map Prod.fst, [], ?_, fun _ => rfl, ?_, ?_, ?_, ?_⟩
    · simp [Feed.jobs]
    · rw [hlast, lastOf_length]
      exact Nat.min_le_left _ _
    · rw [hlast]
      exact (lastOf_sublist _ _).trans hgot.1
    · intro he
      rw [hlast, hgot.2 he]
    · rw [slice_self]
      exact ⟨List.Sublist.refl _, fun _ => rfl⟩
  | feeding f =>
    simp only [nextOf] at hn
    split at hn
    · next event rest hbuf =>
      cases hn
      obtain ⟨replay, live, hjobs, hlive, hparts⟩ := h.parts
      have hnil : live = [] := hlive (by rw [hbuf]; exact List.cons_ne_nil _ _)
      refine ⟨h.joinedLe, h.posLe, h.endLe, replay, live, ?_, fun _ => hnil, hparts⟩
      rw [← hjobs]
      simp [Feed.jobs, hbuf, SseEvent.job?]
    · cases hn
  | _ => cases hn

theorem Client.Sound.jobRecv {k : ℕ} {c c' : Client} {now : Millis} (hc : w.clients[k]? = some c)
    (h : c.Sound exact w.jobs) (hok : exact → KeepsUp w (.jobRecv k now))
    (hn : jobRecvOf w now c = some c') : c'.Sound exact w.jobs := by
  obtain ⟨f, r, pos, rfl, hbuf, hrecv, hnext⟩ := jobRecvOf_cases hn
  have hshows : f.Shows exact w.jobs := h
  have hjoined := hshows.joinedLe
  have hle := recv_le hrecv
  obtain ⟨replay, live, hjobs, hlive, hlength, hsub, hreplay, hgot⟩ := hshows.parts
  have hsent : f.sent.filterMap SseEvent.job? = replay ++ live := by
    rw [← hjobs, Feed.jobs, hbuf]
    simp
  rcases hnext with ⟨event, rfl, rfl⟩ | ⟨rfl, rfl⟩
  · rcases recv_cases hrecv with ⟨x, hx, hat, rfl, -⟩ | ⟨hx, -⟩
    · cases hx
      refine ⟨Nat.le_succ_of_le hjoined, hle.2, hshows.endLe, replay, live ++ [event], ?_, ?_, hlength,
        hsub, hreplay, ?_⟩
      · simp [Feed.jobs, hbuf, hsent, SseEvent.job?]
      · intro hne
        exact absurd hbuf hne
      · have hsnoc := hgot.snoc event
        rwa [← slice_succ hjoined hat] at hsnoc
    · cases hx
  · rcases recv_cases hrecv with ⟨x, hx, -⟩ | ⟨-, hfar, hlt, -⟩
    · cases hx
    · have hnot : ¬ exact := by
        intro he
        have hup := hok he f hc
        omega
      refine ⟨hjoined.trans hle.1, hle.2, hshows.endLe, replay, live, ?_, ?_, hlength, hsub, hreplay, ?_⟩
      · rw [← hjobs]
        rfl
      · intro hne
        exact absurd hbuf hne
      · exact hgot.behind (slice_sublist (Nat.le_of_lt hlt)) hnot

theorem Client.Sound.statsRecv {c c' : Client} (h : c.Sound exact w.jobs)
    (hn : statsRecvOf w c = some c') : c'.Sound exact w.jobs := by
  obtain ⟨f, g, rfl, rfl, hpos, hjoined, hend, hbuf, hsent⟩ := statsRecvOf_cases hn
  have hshows : f.Shows exact w.jobs := h
  have hjobs : g.jobs = f.jobs := by rw [Feed.jobs, Feed.jobs, hbuf, hsent]
  show g.Shows exact w.jobs
  have hparts := hshows.parts
  rw [← hjobs, ← hbuf, ← hend, ← hjoined, ← hpos] at hparts
  refine ⟨?_, ?_, ?_, hparts⟩
  · rw [hjoined, hpos]
    exact hshows.joinedLe
  · rw [hpos]
    exact hshows.posLe
  · rw [hend]
    exact hshows.endLe

theorem mem_set_sound {clients : List Client} {jobs : List JobStatusEvent} {k : ℕ} {c' : Client}
    (h : ∀ c ∈ clients, c.Sound exact jobs) (hc' : c'.Sound exact jobs) :
    ∀ c ∈ clients.set k c', c.Sound exact jobs := by
  intro c hc
  rcases List.mem_or_eq_of_mem_set hc with hc | rfl
  · exact h c hc
  · exact hc'

theorem FeedsSound.step {a : Act} (h : FeedsSound exact w) (hok : exact → KeepsUp w a)
    (hs : w.step a = some w') : FeedsSound exact w' := by
  cases a with
  | send event =>
    cases hs
    obtain ⟨got, hring, hgot⟩ := h.ring.got
    have hposLe := h.ring.posLe
    have hlong : (w.jobs ++ [event]).length = w.jobs.length + 1 := by simp
    refine ⟨⟨?_, got, hring, ?_⟩, fun c hc => (h.clients c hc).send event⟩
    · show w.ringPos ≤ (w.jobs ++ [event]).length
      omega
    · rwa [List.take_append_of_le_length hposLe]
  | tick =>
    cases hs
    exact ⟨⟨h.ring.posLe, h.ring.got⟩, h.clients⟩
  | ringRecv now =>
    have hring := h.ring.recv hok hs
    have hsame : w'.jobs = w.jobs ∧ w'.clients = w.clients := by
      simp only [World.step] at hs
      split at hs
      · cases hs
        exact ⟨rfl, rfl⟩
      · cases hs
        exact ⟨rfl, rfl⟩
      · cases hs
    refine ⟨hring, ?_⟩
    rw [hsame.1, hsame.2]
    exact h.clients
  | connect feed =>
    cases hs
    refine ⟨⟨h.ring.posLe, h.ring.got⟩, fun c hc => ?_⟩
    rcases List.mem_append.mp hc with hc | hc
    · exact h.clients c hc
    · rw [List.mem_singleton.mp hc]
      split
      · trivial
      · split <;> trivial
  | next k =>
    simp only [World.step] at hs
    split at hs
    · cases hs
      exact ⟨⟨h.ring.posLe, h.ring.got⟩, mem_set_sound h.clients trivial⟩
    · obtain ⟨c, c', hc, hf, rfl⟩ := advanceClient_some hs
      have hsound := (h.clients c (List.mem_of_getElem? hc)).next h.ring hf
      exact ⟨⟨h.ring.posLe, h.ring.got⟩, mem_set_sound h.clients hsound⟩
  | jobRecv k now =>
    obtain ⟨c, c', hc, hf, rfl⟩ := advanceClient_some hs
    have hsound := (h.clients c (List.mem_of_getElem? hc)).jobRecv hc hok hf
    exact ⟨⟨h.ring.posLe, h.ring.got⟩, mem_set_sound h.clients hsound⟩
  | statsRecv k =>
    obtain ⟨c, c', hc, hf, rfl⟩ := advanceClient_some hs
    have hsound := (h.clients c (List.mem_of_getElem? hc)).statsRecv hf
    exact ⟨⟨h.ring.posLe, h.ring.got⟩, mem_set_sound h.clients hsound⟩
  | drop k =>
    simp only [World.step] at hs
    split at hs
    · split at hs
      · cases hs
        exact ⟨⟨h.ring.posLe, h.ring.got⟩, mem_set_sound h.clients trivial⟩
      · cases hs
    · cases hs

theorem feeds_sound (exact : Prop) (h : Run World.step (fun w a => exact → KeepsUp w a) World.init w) :
    FeedsSound exact w := by
  have hinit : FeedsSound exact World.init := by
    refine ⟨⟨Nat.le_refl _, [], rfl, ?_⟩, by simp [World.init]⟩
    exact ⟨List.Sublist.refl _, fun _ => rfl⟩
  exact h.invariant hinit fun x y a _ hx hok hs => hx.step hok hs

end Shows

/-- The last events before `r` and those from `s` on leave no gap when `s` is not after `r`. -/
theorem no_gap {jobs : List JobStatusEvent} {r s p : ℕ} (hrs : s ≤ r) (hr : r ≤ jobs.length) :
    (slice jobs (r - EVENT_BUFFER_CAPACITY) p).Sublist
      (lastOf EVENT_BUFFER_CAPACITY (jobs.take r) ++ slice jobs s p) := by
  have hlast : lastOf EVENT_BUFFER_CAPACITY (jobs.take r) = slice jobs (r - EVENT_BUFFER_CAPACITY) r := by
    rw [lastOf, List.length_take, Nat.min_eq_left hr]
    rfl
  rw [hlast]
  by_cases hpr : p ≤ r
  · exact (slice_sublist hpr).trans (List.sublist_append_left _ _)
  · have hsplit : slice jobs (r - EVENT_BUFFER_CAPACITY) p =
        slice jobs (r - EVENT_BUFFER_CAPACITY) r ++ slice jobs r p := by
      have htake : jobs.take p = jobs.take r ++ (jobs.take p).drop r := by
        have hdrop := List.take_append_drop r (jobs.take p)
        rw [List.take_take, Nat.min_eq_left (by omega)] at hdrop
        exact hdrop.symm
      rw [slice, slice, slice, htake, List.drop_append_of_le_length]
      · rw [← htake]
      · rw [List.length_take]
        omega
    rw [hsplit]
    have hlater : (slice jobs r p).Sublist (slice jobs s p) := by
      have hdrop : slice jobs r p = (slice jobs s p).drop (r - s) := by
        rw [slice, slice, List.drop_drop, Nat.add_sub_cancel' hrs]
      rw [hdrop]
      exact List.drop_sublist _ _
    exact (List.Sublist.refl _).append hlater

/-- A feed has shown a replay of at most `EVENT_BUFFER_CAPACITY` events from before it was read and live
events from after its subscription, each part in the order they were sent. When no receiver falls
behind, these are all the last events that the ring buffer's task had got, and all that were sent since
the subscription; and if that task had got what was sent before the subscription, no event is missing. -/
theorem feed_shows {w : World} {f : Feed} (hf : Client.feeding f ∈ w.clients) :
    (Run World.step (fun _ _ => True) World.init w → ∃ replay live, f.jobs = replay ++ live ∧
        replay.length ≤ EVENT_BUFFER_CAPACITY ∧ replay.Sublist (w.jobs.take f.replayEnd) ∧
        live.Sublist (slice w.jobs f.joined f.jobPos)) ∧
      (Run World.step KeepsUp World.init w →
        f.jobs = lastOf EVENT_BUFFER_CAPACITY (w.jobs.take f.replayEnd) ++
            slice w.jobs f.joined f.jobPos ∧
          (f.joined ≤ f.replayEnd →
            (slice w.jobs (f.replayEnd - EVENT_BUFFER_CAPACITY) f.jobPos).Sublist f.jobs)) := by
  refine ⟨fun hrun => ?_, fun hrun => ?_⟩
  · have hsound := feeds_sound False (hrun.mono fun _ _ _ h => absurd h id)
    obtain ⟨replay, live, hjobs, -, hlength, hsub, -, hlive⟩ := (hsound.clients _ hf).parts
    exact ⟨replay, live, hjobs, hlength, hsub, hlive.1⟩
  · have hsound := feeds_sound True (hrun.mono fun _ _ h _ => h)
    have hshows : f.Shows True w.jobs := hsound.clients _ hf
    obtain ⟨replay, live, hjobs, -, -, -, hreplay, hlive⟩ := hshows.parts
    have hall : f.jobs = lastOf EVENT_BUFFER_CAPACITY (w.jobs.take f.replayEnd) ++
        slice w.jobs f.joined f.jobPos := by
      rw [hjobs, hreplay trivial, hlive.2 trivial]
    refine ⟨hall, fun hle => ?_⟩
    rw [hall]
    exact no_gap hle hshows.endLe

def jobEvent (status : String) : JobStatusEvent :=
  { id := "job_1", status, modelName := "qwen3", providerType := "ollama", latencyMs := none }

def keepsUp (w : World) (_ : Act) : Bool := decide (w.jobs.length ≤ JOB_EVENT_CAPACITY)

theorem keepsUp_of {w : World} {a : Act} (h : keepsUp w a = true) : KeepsUp w a := by
  have hlength : w.jobs.length ≤ JOB_EVENT_CAPACITY := of_decide_eq_true h
  cases a with
  | ringRecv now =>
    show w.jobs.length - w.ringPos ≤ JOB_EVENT_CAPACITY
    omega
  | jobRecv k now =>
    intro f _
    omega
  | _ => trivial

def Client.feed? : Client → Option Feed
  | feeding f => some f
  | _ => none

def firstFeed (w : World) : Option Feed := w.clients.findSome? Client.feed?

theorem firstFeed_mem {w : World} {f : Feed} (h : firstFeed w = some f) : Client.feeding f ∈ w.clients := by
  obtain ⟨c, hc, hf⟩ := List.exists_of_findSome?_eq_some h
  cases c with
  | feeding g =>
    cases hf
    exact hc
  | _ => cases hf

/-- An event that is sent after the subscription and before the replay is read is shown twice. -/
def feedActs : List Act :=
  [Act.send (jobEvent "pending"), Act.ringRecv 1, Act.connect true, Act.next 0,
    Act.send (jobEvent "running"), Act.ringRecv 2, Act.next 0, Act.next 0, Act.next 0, Act.next 0,
    Act.jobRecv 0 3]

theorem running_shown_twice : ∃ (w : World) (f : Feed), Run World.step KeepsUp World.init w ∧
    f.jobs = [jobEvent "pending", jobEvent "running", jobEvent "running"] ∧
    f.jobs = lastOf EVENT_BUFFER_CAPACITY (w.jobs.take f.replayEnd) ++ slice w.jobs f.joined f.jobPos := by
  have hexec : ((exec World.step keepsUp World.init feedActs).any fun w => (firstFeed w).any fun f =>
      decide (f.jobs = [jobEvent "pending", jobEvent "running", jobEvent "running"])) = true := by
    decide +kernel
  obtain ⟨w, hrun, hw⟩ := Run.exists_of_exec (fun _ _ h => keepsUp_of h) hexec
  obtain ⟨f, hf, hjobs⟩ := (Option.any_eq_true ..).mp hw
  exact ⟨w, f, hrun, of_decide_eq_true hjobs, ((feed_shows (firstFeed_mem hf)).2 hrun).1⟩

end Veronex.EventFeed
