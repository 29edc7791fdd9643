import Veronex.Foundation.Pool
import Veronex.Foundation.Transition
import Mathlib.Logic.Function.Basic

/-! # The raw weather of one grid cell

`get_raw` and `do_fetch` of `tools/weather.rs`. The calls for one cell and the refreshes they spawn
are tasks; a step takes one task from the `await` it is suspended at to the next. The cell has its
L1 entry, its entry in the map of fetches in flight, and the values of the watch channels the
leaders made.

A dropped future is a task that ends without a result. What a fetched entry contains is not read
here: it is the time it was fetched at.
-/
namespace Veronex.Weather
set_option autoImplicit false

open Concurrency

def L2_TTL_SECS : ℕ := 3600

def GRACE_SECS : ℕ := 600

/-- A watch channel, by the number of those made before it. -/
abbrev Chan := ℕ

structure RawEntry where
  fetchedAt : ℕ

def RawEntry.isFresh (e : RawEntry) (now : ℕ) : Bool := decide (now - e.fetchedAt < L2_TTL_SECS)

def RawEntry.isInGrace (e : RawEntry) (now : ℕ) : Bool :=
  let age := now - e.fetchedAt
  decide (L2_TTL_SECS ≤ age ∧ age < L2_TTL_SECS + GRACE_SECS)

/-- Who runs a `do_fetch`. -/
inductive Role
  | leader (tx : Chan)
  | refresh
  deriving DecidableEq

inductive Task
  /-- `get_raw` before its first poll. -/
  | called
  /-- The spawned refresh before its first poll. -/
  | spawned
  | valkeyGetRaw
  | checkRateLimit (role : Role)
  | fetchRaw (role : Role)
  | valkeySetRaw (role : Role) (entry : RawEntry)
  /-- `rx.wait_for`. -/
  | waitFor (rx : Chan)
  /-- Returned, or dropped. -/
  | ended (result : Option (Except String RawEntry))

/-- What a task is resumed with. -/
inductive Reply
  | polled
  | found (hit : Bool)
  | allowed (ok : Bool)
  | fetched (failure : Option String)
  | stored

structure Cell where
  now : ℕ
  l1 : Option RawEntry
  inflight : Option Chan
  value : Chan → Bool
  channels : ℕ

namespace Cell

/-- The follower reads L1. -/
def followed (c : Cell) : Task :=
  .ended (some (match c.l1 with
    | some entry => .ok entry
    | none => .error "singleflight fetch failed"))

/-- The entry of the map: a new channel, or the one that is there. `wait_for` looks at the value
before it suspends. -/
def gate (c : Cell) (valkey : Bool) : Cell × Task :=
  match c.inflight with
  | none =>
    ({ c with inflight := some c.channels, value := Function.update c.value c.channels false
              channels := c.channels + 1 },
      if valkey then .checkRateLimit (.leader c.channels) else .fetchRaw (.leader c.channels))
  | some tx => (c, if c.value tx then c.followed else .waitFor tx)

/-- What follows `do_fetch`: a leader sends, which stores the value only where there is a receiver,
and removes the entry of the map. -/
def finish (c : Cell) (received : Chan → Bool) (result : Except String RawEntry) :
    Role → Cell × Task
  | .leader tx =>
    ({ c with value := if received tx then Function.update c.value tx true else c.value
              inflight := none }, .ended (some result))
  | .refresh => (c, .ended (some result))

def fresh (c : Cell) : Bool := c.l1.any fun e => e.isFresh c.now

def inGrace (c : Cell) : Bool := !c.fresh && c.l1.any fun e => e.isInGrace c.now

end Cell

/-- One step of a task, with the tasks it spawns. -/
def Task.step (t : Task) (valkey : Bool) (c : Cell) (received : Chan → Bool) (reply : Reply) :
    Option (Cell × Task × List Task) :=
  match t, reply with
  | .called, .polled =>
    if c.fresh then some (c, .ended (c.l1.map .ok), [])
    else if c.inGrace then some (c, .ended (c.l1.map .ok), [.spawned])
    else if valkey then some (c, .valkeyGetRaw, [])
    else some ((c.gate valkey).1, (c.gate valkey).2, [])
  | .spawned, .polled =>
    some (c, if valkey then .checkRateLimit .refresh else .fetchRaw .refresh, [])
  | .valkeyGetRaw, .found true =>
    let entry : RawEntry := { fetchedAt := c.now }
    some ({ c with l1 := some entry }, .ended (some (.ok entry)), [])
  | .valkeyGetRaw, .found false => some ((c.gate valkey).1, (c.gate valkey).2, [])
  | .checkRateLimit role, .allowed true => some (c, .fetchRaw role, [])
  | .checkRateLimit role, .allowed false =>
    let r := c.finish received (.error "Weather API rate limit exceeded. Try again later.") role
    some (r.1, r.2, [])
  | .fetchRaw role, .fetched (some message) =>
    let r := c.finish received (.error message) role
    some (r.1, r.2, [])
  | .fetchRaw role, .fetched none =>
    let entry : RawEntry := { fetchedAt := c.now }
    if valkey then some (c, .valkeySetRaw role entry, [])
    else
      let r := { c with l1 := some entry }.finish received (.ok entry) role
      some (r.1, r.2, [])
  | .valkeySetRaw role entry, .stored =>
    let r := { c with l1 := some entry }.finish received (.ok entry) role
    some (r.1, r.2, [])
  | .waitFor rx, .polled => if c.value rx then some (c, c.followed, []) else none
  | _, _ => none

/-- A receiver of the channel. -/
def Task.receives (tx : Chan) : Task → Bool
  | .waitFor rx => rx == tx
  | _ => false

def Task.isEnded : Task → Bool
  | .ended _ => true
  | _ => false

structure WeatherState where
  cell : Cell
  tasks : List Task

namespace WeatherState

def init : WeatherState :=
  { cell := { now := 0, l1 := none, inflight := none, value := fun _ => false, channels := 0 }
    tasks := [] }

inductive Action
  | call
  | step (k : ℕ) (reply : Reply)
  | cancel (k : ℕ)
  /-- Time passes. -/
  | tick (secs : ℕ)
  /-- Moka drops the entry. -/
  | evict

def received (s : WeatherState) (tx : Chan) : Bool := s.tasks.any (Task.receives tx)

def step (valkey : Bool) (s : WeatherState) : Action → Option WeatherState
  | .call => some { s with tasks := s.tasks ++ [.called] }
  | .step k reply => do
    let t ← s.tasks[k]?
    let (cell, t', new) ← t.step valkey s.cell s.received reply
    some { cell, tasks := advance s.tasks k t' new }
  | .cancel k => do
    let t ← s.tasks[k]?
    if t.isEnded then none else some { s with tasks := advance s.tasks k (.ended none) [] }
  | .tick secs => some { s with cell := { s.cell with now := s.cell.now + secs } }
  | .evict => some { s with cell := { s.cell with l1 := none } }

end WeatherState

end Veronex.Weather
