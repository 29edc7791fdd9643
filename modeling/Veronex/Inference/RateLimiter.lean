import Veronex.Inference.Cluster

/-! # Requests of API keys

`rate_limiter` of `infrastructure/inbound/http/middleware/rate_limiter.rs` and the handlers behind
it. A request passes the limits of its key; then its handler submits jobs with the id of the key:
none where it refuses the body, one, or one for every round of an MCP loop. Session callers pass the
limiter unseen and submit without a key.

The counter of a bucket is kept in two parts: `World.tpm` is what `record_tpm` added to it and
`reserved` what the limiter did.
-/
namespace Veronex
open Concurrency
set_option autoImplicit false

def MAX_KEY_CONCURRENT : ℕ := 10

/-- The `EXPIRE` of a TPM counter, in ms. -/
def TPM_EXPIRE_MS : Millis := 120000

structure ApiKey where
  id : Uuid
  rateLimitRpm : ℤ
  rateLimitTpm : ℤ

inductive RequestPc
  | checkRpm
  /-- `current_minute`. -/
  | readMinute
  | checkTpm (minute : ℕ)
  /-- `try_acquire_owned` of the key's permits. -/
  | acquire
  | handling
  | responded
  deriving DecidableEq

/-- A request. `charged` is the minute of the bucket it was reserved in, `jobs` what its handler
submitted. -/
structure Request where
  inst : InstanceId
  key : ApiKey
  charged : Option ℕ
  jobs : List Uuid
  pc : RequestPc

def Request.goto (r : Request) (pc : RequestPc) : Request := { r with pc }

/-- The gateway instances and the requests of API keys at them. -/
structure Gateway where
  config : Config
  requests : List Request
  reserved : Uuid → ℕ → ℤ
  /-- When a counter expires, if it has a TTL. -/
  expireAt : Uuid → ℕ → Option Millis

inductive GatewayAction
  | arrive (inst : InstanceId) (key : ApiKey)
  /-- The next step of the limiter. `rpmOk` is what the window of the key says. -/
  | limit (k : ℕ) (rpmOk : Bool)
  /-- `submit`, called by the handler of a request, up to the id of the job. -/
  | submit (k : ℕ) (req : SubmitJobRequest)
  | respond (k : ℕ)
  | expire (key : Uuid) (minute : ℕ)
  | act (a : Action)

namespace Gateway

/-- The counter of a bucket. -/
def bucket (g : Gateway) (key : Uuid) (minute : ℕ) : ℤ :=
  g.reserved key minute + g.config.world.tpm key minute

/-- The permits of a key that requests at an instance hold. -/
def inFlight (g : Gateway) (inst : InstanceId) (key : Uuid) : ℕ :=
  g.requests.countP fun r => r.inst = inst ∧ r.key.id = key ∧ r.pc = .handling

def put (g : Gateway) (k : ℕ) (r : Request) : Gateway :=
  { g with requests := g.requests.set k r }

/-- The part of `TPM_RESERVE_SCRIPT` after its check. -/
def reserve (g : Gateway) (key : Uuid) (minute : ℕ) : Gateway :=
  let reserved := Function.update (g.reserved key) minute
    (g.reserved key minute + TPM_ESTIMATED_TOKENS)
  let expireAt := Function.update (g.expireAt key) minute
    ((g.expireAt key minute).or (some (g.config.world.now + TPM_EXPIRE_MS)))
  { g with
    reserved := Function.update g.reserved key reserved
    expireAt := Function.update g.expireAt key expireAt }

def limitStep (g : Gateway) (k : ℕ) (r : Request) (rpmOk : Bool) : Option Gateway :=
  match r.pc with
  | .checkRpm =>
    some (g.put k (r.goto
      (if 0 < r.key.rateLimitRpm ∧ rpmOk = false then .responded
        else if 0 < r.key.rateLimitTpm then .readMinute
        else .acquire)))
  | .readMinute => some (g.put k (r.goto (.checkTpm (g.config.world.now / 60000))))
  | .checkTpm minute =>
    if r.key.rateLimitTpm ≤ g.bucket r.key.id minute then some (g.put k (r.goto .responded))
    else some ((g.reserve r.key.id minute).put k { r with charged := some minute, pc := .acquire })
  | .acquire =>
    some (g.put k (r.goto
      (if g.inFlight r.inst r.key.id < MAX_KEY_CONCURRENT then .handling else .responded)))
  | .handling => none
  | .responded => none

/-- A handler submits a job with the id of its key. A request `submit` refuses makes no job. -/
def submitStep (g : Gateway) (k : ℕ) (r : Request) (req : SubmitJobRequest) : Option Gateway :=
  if r.pc = .handling ∧ req.apiKeyId = some r.key.id then do
    let started ← g.config.step (.start (.submit r.inst req))
    let config ← started.step (.run g.config.tasks.length .go)
    let id := g.config.world.nextJob
    let jobs := match buildJob id req g.config.world.now with
      | .ok _ => r.jobs ++ [id]
      | .error _ => r.jobs
    return { g.put k { r with jobs } with config }
  else none

/-- A restart of its instance ends a request. -/
def endRequests (inst : InstanceId) (r : Request) : Request :=
  if r.inst = inst then r.goto .responded else r

def act (g : Gateway) (a : Action) : Option Gateway := do
  let config ← g.config.step a
  match a with
  | .start (.submit _ req) => if req.apiKeyId.isSome then none else return { g with config }
  | .restart inst => return { g with config, requests := g.requests.map (endRequests inst) }
  | _ => return { g with config }

def step (g : Gateway) : GatewayAction → Option Gateway
  | .arrive inst key =>
    some { g with
      requests := g.requests ++ [{ inst, key, charged := none, jobs := [], pc := .checkRpm }] }
  | .limit k rpmOk => do
    let r ← g.requests[k]?
    g.limitStep k r rpmOk
  | .submit k req => do
    let r ← g.requests[k]?
    g.submitStep k r req
  | .respond k => do
    let r ← g.requests[k]?
    if r.pc = .handling then return g.put k (r.goto .responded) else none
  | .expire key minute => do
    let deadline ← g.expireAt key minute
    -- the counter is gone, whoever added to it
    let reserved := Function.update (g.reserved key) minute (-g.config.world.tpm key minute)
    if deadline ≤ g.config.world.now then
      return { g with
        reserved := Function.update g.reserved key reserved
        expireAt := Function.update g.expireAt key (Function.update (g.expireAt key) minute none) }
    else none
  | .act a => g.act a

def init (d : Deployment) : Gateway :=
  { config := Config.init d, requests := [], reserved := fun _ _ => 0, expireAt := fun _ _ => none }

end Gateway

end Veronex
