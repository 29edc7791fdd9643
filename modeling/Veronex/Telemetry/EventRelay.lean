import Veronex.Http.EventFeed
import Veronex.Telemetry.Otlp

/-! # Job events between instances

`broadcast_event` of `use_cases/inference/helpers.rs`, and `publish_job_event` and
`run_job_event_subscriber` of `infrastructure/outbound/pubsub/relay.rs`. Every instance has a broadcast
channel of its own, Valkey gives a message to whoever has subscribed, and a subscriber that falls behind
loses messages.

`event_relayed`: what comes into the channel of an instance.
-/
namespace Veronex.EventRelay
set_option autoImplicit false
open Concurrency EventFeed

/-- What `serde_json` writes and reads, and how an instance is called. -/
structure Wire where
  toText : Json → String
  fromStr : String → Option Json
  name : InstanceId → String

/-- `as i32` -/
def asI32 (n : ℤ) : ℤ := (BitVec.ofInt 32 n).toInt

/-- `latency_ms` is an `i32`. -/
def InRange (event : JobStatusEvent) : Prop :=
  ∀ n, event.latencyMs = some n → -2 ^ 31 ≤ n ∧ n < 2 ^ 31

/-- The payload of `publish_job_event`. -/
def payload (instanceId : String) (event : JobStatusEvent) : Json :=
  .obj [("id", .str event.id), ("status", .str event.status), ("model_name", .str event.modelName),
    ("provider_type", .str event.providerType),
    ("latency_ms", (event.latencyMs.map fun n => Json.num (toString n)).getD .null),
    ("instance_id", .str instanceId)]

def field (v : Json) (key : String) : String := ((v.get key).bind Json.asStr).getD ""

/-- What the subscriber makes of a message: nothing of its own, nor of what it cannot read. -/
def receivedEvent (x : Wire) (self : InstanceId) (text : String) : Option JobStatusEvent :=
  match x.fromStr text with
  | none => none
  | some v =>
    if (v.get "instance_id").bind Json.asStr = some (x.name self) then none
    else some { id := field v "id", status := field v "status", modelName := field v "model_name"
                providerType := field v "provider_type"
                latencyMs := ((v.get "latency_ms").bind Json.asI64).map asI32 }

/-- `origin` is the instance whose job it is. -/
structure Emission where
  origin : InstanceId
  event : JobStatusEvent

/-- A published message. Which event it is of is only counted. -/
structure Message where
  serial : ℕ
  text : String

/-- An instance: its channel, with the number of each event, and the messages of its subscription. -/
structure Instance where
  log : List (ℕ × JobStatusEvent)
  subscribed : Bool
  inbox : List Message

/-- `pending`: the events that are not published yet. -/
structure World where
  emitted : List Emission
  pending : List ℕ
  instances : InstanceId → Instance

inductive Act
  | broadcast (i : InstanceId) (event : JobStatusEvent)
  /-- `PUBLISH`, which may fail. -/
  | publish (serial : ℕ) (ok : Bool)
  | subscribe (i : InstanceId)
  /-- The receiver of the client lags, and some messages are gone. -/
  | lose (i : InstanceId) (count : ℕ)
  | receive (i : InstanceId)
  | stop (i : InstanceId)

namespace World
variable (x : Wire)

def init : World :=
  { emitted := [], pending := [], instances := fun _ => { log := [], subscribed := false, inbox := [] } }

def setInstance (w : World) (i : InstanceId) (inst : Instance) : World :=
  { w with instances := Function.update w.instances i inst }

/-- Valkey gives the message to everyone who has subscribed. -/
def deliver (w : World) (m : Message) : World :=
  { w with instances := fun i =>
      let inst := w.instances i
      if inst.subscribed then { inst with inbox := inst.inbox ++ [m] } else inst }

/-- The event is sent on the instance's own channel, and is to be published. -/
def broadcast (w : World) (i : InstanceId) (event : JobStatusEvent) : World :=
  { w.setInstance i { w.instances i with
      log := (w.instances i).log ++ [(w.emitted.length, event)] } with
    emitted := w.emitted ++ [{ origin := i, event }]
    pending := w.pending ++ [w.emitted.length] }

def step (w : World) : Act → Option World
  | .broadcast i event => some (w.broadcast i event)
  | .publish serial ok =>
    if serial ∈ w.pending then
      match w.emitted[serial]? with
      | none => none
      | some em =>
        let w := { w with pending := w.pending.erase serial }
        if ok then some (w.deliver { serial, text := x.toText (payload (x.name em.origin) em.event) })
        else some w
    else none
  | .subscribe i => some (w.setInstance i { w.instances i with subscribed := true })
  | .lose i count =>
    some (w.setInstance i { w.instances i with inbox := (w.instances i).inbox.drop count })
  | .receive i =>
    match (w.instances i).inbox with
    | [] => none
    | m :: rest => match receivedEvent x i m.text with
      | none => some (w.setInstance i { w.instances i with inbox := rest })
      | some event => some (w.setInstance i { w.instances i with
          inbox := rest, log := (w.instances i).log ++ [(m.serial, event)] })
  | .stop i => some (w.setInstance i { w.instances i with subscribed := false, inbox := [] })

end World

/-! ## Messages -/

section Messages
variable {x : Wire}

theorem asI32_of_range {n : ℤ} (h : -2 ^ 31 ≤ n ∧ n < 2 ^ 31) : asI32 n = n := by
  rw [asI32, BitVec.toInt_ofInt, Int.bmod_eq_of_le]
  · omega
  · omega

theorem asI64_toString {n : ℤ} (h : -2 ^ 31 ≤ n ∧ n < 2 ^ 31) :
    (Json.num (toString n)).asI64 = some n := by
  cases n with
  | ofNat m =>
    have htext : (toString (Int.ofNat m)).toList = Nat.toDigits 10 m := Nat.toList_repr
    have hminus : ∀ rest, Nat.toDigits 10 m ≠ '-' :: rest := by
      intro rest heq
      have hmem : '-' ∈ Nat.toDigits 10 m := heq ▸ List.mem_cons_self
      have hdigit := Nat.isDigit_of_mem_toDigits (by decide) (by decide) hmem
      exact absurd hdigit (by decide)
    rw [Json.asI64, htext]
    split
    · next rest heq => exact absurd heq (hminus rest)
    · have hbounds : -2 ^ 63 ≤ (m : ℤ) ∧ (m : ℤ) < 2 ^ 63 := by
        simp only [Int.ofNat_eq_natCast] at h
        omega
      rw [Telemetry.digits_toDigits]
      show Option.filter (fun i => decide (-2 ^ 63 ≤ i ∧ i < 2 ^ 63)) (some (m : ℤ)) = some (m : ℤ)
      rw [Option.filter_some, if_pos (decide_eq_true hbounds)]
  | negSucc m =>
    have htext : (toString (Int.negSucc m)).toList = '-' :: Nat.toDigits 10 (m + 1) := by
      show ("-" ++ (m + 1).repr).toList = _
      rw [String.toList_append, Nat.toList_repr]
      rfl
    have hbounds : -2 ^ 63 ≤ Int.negSucc m ∧ Int.negSucc m < 2 ^ 63 := by omega
    simp only [Json.asI64, htext]
    rw [Telemetry.digits_toDigits]
    show Option.filter (fun i => decide (-2 ^ 63 ≤ i ∧ i < 2 ^ 63)) (some (Int.negSucc m)) =
      some (Int.negSucc m)
    rw [Option.filter_some, if_pos (decide_eq_true hbounds)]

/-- The subscriber of another instance reads the event as it was, that of the same one nothing. -/
theorem receivedEvent_payload (self : InstanceId) {i : InstanceId} {event : JobStatusEvent} (hname : Function.Injective x.name)
    (htext : x.fromStr (x.toText (payload (x.name i) event)) = some (payload (x.name i) event))
    (hrange : InRange event) :
    receivedEvent x self (x.toText (payload (x.name i) event)) = if i = self then none else some event := by
  have hid : (payload (x.name i) event).get "instance_id" = some (.str (x.name i)) := by
    simp [payload, Json.get_obj_cons]
  rw [receivedEvent, htext]
  dsimp only
  rw [hid]
  by_cases hself : i = self
  · rw [if_pos hself, if_pos (by rw [hself]; rfl)]
  · have hne : ¬ (Option.bind (some (Json.str (x.name i))) Json.asStr = some (x.name self)) := by
      intro heq
      exact hself (hname (Option.some.inj heq))
    rw [if_neg hself, if_neg hne]
    have hlatency : (((payload (x.name i) event).get "latency_ms").bind Json.asI64).map asI32 =
        event.latencyMs := by
      have hget : (payload (x.name i) event).get "latency_ms" =
          some ((event.latencyMs.map fun n => Json.num (toString n)).getD .null) := by
        simp [payload, Json.get_obj_cons]
      rw [hget]
      cases hn : event.latencyMs with
      | none => rfl
      | some n =>
        have hbounds := hrange n hn
        show (Json.asI64 (Json.num (toString n))).map asI32 = some n
        rw [asI64_toString hbounds, Option.map_some, asI32_of_range hbounds]
    have hfields : field (payload (x.name i) event) "id" = event.id ∧
        field (payload (x.name i) event) "status" = event.status ∧
        field (payload (x.name i) event) "model_name" = event.modelName ∧
        field (payload (x.name i) event) "provider_type" = event.providerType := by
      simp [field, payload, Json.get_obj_cons, Json.asStr]
    obtain ⟨h1, h2, h3, h4⟩ := hfields
    rw [h1, h2, h3, h4, hlatency]

end Messages

/-! ## Where an event is on its way to an instance -/

theorem count_cons_if (xs : List ℕ) (a n : ℕ) :
    (a :: xs).count n = xs.count n + if n = a then 1 else 0 := by
  by_cases hn : n = a
  · rw [if_pos hn, hn, List.count_cons_self]
  · rw [if_neg hn, List.count_cons_of_ne fun h => hn h.symm, Nat.add_zero]

theorem count_snoc_if (xs : List ℕ) (a n : ℕ) :
    (xs ++ [a]).count n = xs.count n + if n = a then 1 else 0 := by
  rw [List.count_append, count_cons_if, List.count_nil, Nat.zero_add]

section Runs
variable {x : Wire} {w w' : World} {i : InstanceId}

/-- How often event `n` is in the channel of an instance, in its inbox and still to be published; the
last two only if it comes from elsewhere. -/
def tally (w : World) (i : InstanceId) (n : ℕ) : ℕ :=
  ((w.instances i).log.map Prod.fst).count n +
    if (w.emitted[n]?).any (fun em => em.origin = i) then 0
    else ((w.instances i).inbox.map Message.serial).count n + w.pending.count n

/-- Nothing is lost on the way to this instance: it has subscribed whenever something is published,
`PUBLISH` works and the receiver never lags. -/
def Reliable (i : InstanceId) (w : World) : Act → Prop
  | .publish _ ok => ok = true ∧ (w.instances i).subscribed = true
  | .lose j _ => j ≠ i
  | .stop j => j ≠ i
  | _ => True

/-- `serde_json` reads the payload of an event as it wrote it. -/
def Readable (x : Wire) (em : Emission) : Prop :=
  InRange em.event ∧ x.fromStr (x.toText (payload (x.name em.origin) em.event)) =
    some (payload (x.name em.origin) em.event)

/-- The events are readable ones. -/
def Typed (x : Wire) : Act → Prop
  | .broadcast i event => Readable x { origin := i, event }
  | _ => True

def Message.Genuine (x : Wire) (w : World) (m : Message) : Prop :=
  ∃ em, w.emitted[m.serial]? = some em ∧ m.text = x.toText (payload (x.name em.origin) em.event)

structure Relayed (x : Wire) (exact : Prop) (i : InstanceId) (w : World) : Prop where
  typed : ∀ em ∈ w.emitted, Readable x em
  pending : ∀ n ∈ w.pending, n < w.emitted.length
  inbox : ∀ m ∈ (w.instances i).inbox, m.Genuine x w
  log : ∀ p ∈ (w.instances i).log, (w.emitted[p.1]?).map Emission.event = some p.2
  once : ∀ n, tally w i n ≤ 1
  all : exact → ∀ n < w.emitted.length, tally w i n = 1
  own : ∀ n em, w.emitted[n]? = some em → em.origin = i → (n, em.event) ∈ (w.instances i).log

theorem tally_le_of {v : World} {n : ℕ} (hemitted : v.emitted = w.emitted)
    (hlog : ((v.instances i).log.map Prod.fst).count n ≤ ((w.instances i).log.map Prod.fst).count n)
    (hinbox : ((v.instances i).inbox.map Message.serial).count n ≤
      ((w.instances i).inbox.map Message.serial).count n)
    (hpending : v.pending.count n ≤ w.pending.count n) : tally v i n ≤ tally w i n := by
  unfold tally
  rw [hemitted]
  split <;> omega

theorem tally_congr {v : World} {n : ℕ} (hemitted : v.emitted = w.emitted)
    (hinstance : v.instances i = w.instances i) (hpending : v.pending = w.pending) :
    tally v i n = tally w i n := by
  rw [tally, tally, hemitted, hinstance, hpending]

/-- A step that leaves the instance, the events and what is pending alone. -/
theorem Relayed.of_same {exact : Prop} {v : World} (h : Relayed x exact i w)
    (hemitted : v.emitted = w.emitted) (hinstance : v.instances i = w.instances i)
    (hpending : v.pending = w.pending) : Relayed x exact i v where
  typed := by rw [hemitted]; exact h.typed
  pending := by rw [hemitted, hpending]; exact h.pending
  inbox := by
    rw [hinstance]
    intro m hm
    obtain ⟨em, hem, htext⟩ := h.inbox m hm
    exact ⟨em, by rw [hemitted]; exact hem, htext⟩
  log := by rw [hemitted, hinstance]; exact h.log
  once := by
    intro n
    rw [tally_congr hemitted hinstance hpending]
    exact h.once n
  all := by
    intro he n hn
    rw [tally_congr hemitted hinstance hpending]
    rw [hemitted] at hn
    exact h.all he n hn
  own := by rw [hemitted, hinstance]; exact h.own

/-- The instance has lost messages. -/
theorem Relayed.of_lost {exact : Prop} {v : World} (hnot : ¬ exact) (h : Relayed x exact i w)
    (hemitted : v.emitted = w.emitted) (hpending : v.pending = w.pending)
    (hlog : (v.instances i).log = (w.instances i).log)
    (hinbox : (v.instances i).inbox.Sublist (w.instances i).inbox) : Relayed x exact i v where
  typed := by rw [hemitted]; exact h.typed
  pending := by rw [hemitted, hpending]; exact h.pending
  inbox := by
    intro m hm
    obtain ⟨em, hem, htext⟩ := h.inbox m (hinbox.subset hm)
    exact ⟨em, by rw [hemitted]; exact hem, htext⟩
  log := by rw [hemitted, hlog]; exact h.log
  once := by
    intro n
    have hle := tally_le_of (n := n) hemitted (Nat.le_of_eq (by rw [hlog]))
      ((hinbox.map Message.serial).count_le n) (Nat.le_of_eq (by rw [hpending]))
    exact hle.trans (h.once n)
  all := fun he => absurd he hnot
  own := by rw [hemitted, hlog]; exact h.own

theorem tally_zero {exact : Prop} (h : Relayed x exact i w) {n : ℕ} (hn : w.emitted.length ≤ n) :
    tally w i n = 0 := by
  have hnone : w.emitted[n]? = none := List.getElem?_eq_none hn
  have hlog : ((w.instances i).log.map Prod.fst).count n = 0 := by
    refine List.count_eq_zero.mpr fun hmem => ?_
    obtain ⟨p, hp, rfl⟩ := List.mem_map.mp hmem
    have hevent := h.log p hp
    rw [hnone] at hevent
    cases hevent
  have hinbox : ((w.instances i).inbox.map Message.serial).count n = 0 := by
    refine List.count_eq_zero.mpr fun hmem => ?_
    obtain ⟨m, hm, rfl⟩ := List.mem_map.mp hmem
    obtain ⟨em, hem, -⟩ := h.inbox m hm
    rw [hnone] at hem
    cases hem
  have hpending : w.pending.count n = 0 := by
    refine List.count_eq_zero.mpr fun hmem => ?_
    have hlt := h.pending n hmem
    omega
  rw [tally, hnone, hlog, hinbox, hpending]
  rfl

theorem World.broadcast_instance (w : World) (i j : InstanceId) (event : JobStatusEvent) :
    (w.broadcast j event).instances i = { w.instances i with
      log := (w.instances i).log ++ if i = j then [(w.emitted.length, event)] else [] } := by
  show Function.update w.instances j _ i = _
  rw [Function.update_apply]
  by_cases hij : i = j
  · rw [if_pos hij, if_pos hij, hij]
  · rw [if_neg hij, if_neg hij, List.append_nil]

theorem World.broadcast_emitted (w : World) (j : InstanceId) (event : JobStatusEvent) (n : ℕ) :
    (w.broadcast j event).emitted[n]? =
      if n = w.emitted.length then some { origin := j, event } else w.emitted[n]? := by
  show (w.emitted ++ [_])[n]? = _
  by_cases hn : n = w.emitted.length
  · rw [if_pos hn, hn, List.getElem?_concat_length]
  · rw [if_neg hn]
    by_cases hlt : n < w.emitted.length
    · exact List.getElem?_append_left hlt
    · have hlength : (w.emitted ++ [({ origin := j, event } : Emission)]).length = w.emitted.length + 1 := by
        simp
      rw [List.getElem?_eq_none (by omega), List.getElem?_eq_none (by omega)]

theorem World.broadcast_keeps {j : InstanceId} {event : JobStatusEvent} {n : ℕ} {em : Emission}
    (h : w.emitted[n]? = some em) : (w.broadcast j event).emitted[n]? = some em := by
  have hlt := (List.getElem?_eq_some_iff.mp h).1
  rw [w.broadcast_emitted, if_neg (by omega), h]

/-- The new event is at one place, and the others are where they were. -/
theorem tally_broadcast {exact : Prop} (h : Relayed x exact i w) (j : InstanceId) (event : JobStatusEvent)
    (n : ℕ) : tally (w.broadcast j event) i n = if n = w.emitted.length then 1 else tally w i n := by
  have hpending : (w.broadcast j event).pending.count n =
      w.pending.count n + if n = w.emitted.length then 1 else 0 := by
    show (w.pending ++ [w.emitted.length]).count n = _
    exact count_snoc_if _ _ _
  have hlog : (((w.broadcast j event).instances i).log.map Prod.fst).count n =
      ((w.instances i).log.map Prod.fst).count n +
        if i = j ∧ n = w.emitted.length then 1 else 0 := by
    rw [w.broadcast_instance]
    by_cases hij : i = j
    · simp only [hij, if_true, true_and, List.map_append, List.map_singleton]
      exact count_snoc_if _ _ _
    · simp [hij]
  have hinbox : ((w.broadcast j event).instances i).inbox = (w.instances i).inbox := by
    rw [w.broadcast_instance]
  rw [tally, hpending, hlog, hinbox, w.broadcast_emitted]
  by_cases hn : n = w.emitted.length
  · have hzero := tally_zero h (Nat.le_of_eq hn.symm)
    have hnone : w.emitted[n]? = none := List.getElem?_eq_none (Nat.le_of_eq hn.symm)
    rw [tally, hnone] at hzero
    simp only [Option.any_none, Bool.false_eq_true, if_false] at hzero
    simp only [hn, and_true, if_true, Option.any_some, decide_eq_true_eq] at hzero ⊢
    by_cases hij : i = j
    · rw [if_pos hij, if_pos hij.symm]
      omega
    · rw [if_neg hij, if_neg fun heq => hij heq.symm]
      omega
  · simp only [hn, and_false, if_false, Nat.add_zero]
    rfl

theorem Relayed.broadcast {exact : Prop} (h : Relayed x exact i w) {j : InstanceId}
    {event : JobStatusEvent} (htyped : Readable x { origin := j, event }) :
    Relayed x exact i (w.broadcast j event) where
  typed := by
    intro em hem
    rcases List.mem_append.mp hem with hem | hem
    · exact h.typed em hem
    · rw [List.mem_singleton.mp hem]
      exact htyped
  pending := by
    intro n hn
    have hlength : (w.broadcast j event).emitted.length = w.emitted.length + 1 := List.length_append
    rw [hlength]
    rcases List.mem_append.mp hn with hn | hn
    · exact Nat.lt_succ_of_lt (h.pending n hn)
    · rw [List.mem_singleton.mp hn]
      exact Nat.lt_succ_self _
  inbox := by
    intro m hm
    rw [w.broadcast_instance] at hm
    obtain ⟨em, hem, htext⟩ := h.inbox m hm
    exact ⟨em, World.broadcast_keeps hem, htext⟩
  log := by
    intro p hp
    rw [w.broadcast_instance] at hp
    rcases List.mem_append.mp hp with hp | hp
    · obtain ⟨em, hem, hevent⟩ := Option.map_eq_some_iff.mp (h.log p hp)
      rw [World.broadcast_keeps hem, ← hevent]
      rfl
    · split at hp
      · rw [List.mem_singleton.mp hp, w.broadcast_emitted, if_pos rfl]
        rfl
      · cases hp
  once := by
    intro n
    rw [tally_broadcast h]
    split
    · exact Nat.le_refl _
    · exact h.once n
  all := by
    intro he n hn
    have hlength : (w.broadcast j event).emitted.length = w.emitted.length + 1 := List.length_append
    rw [tally_broadcast h]
    split
    · rfl
    · exact h.all he n (by omega)
  own := by
    intro n em hem horigin
    rw [w.broadcast_instance]
    rw [w.broadcast_emitted] at hem
    by_cases hn : n = w.emitted.length
    · rw [if_pos hn] at hem
      cases hem
      have hij : i = j := horigin.symm
      rw [if_pos hij, hn]
      exact List.mem_append_right _ (List.mem_singleton_self _)
    · rw [if_neg hn] at hem
      exact List.mem_append_left _ (h.own n em hem horigin)

/-! ## Publishing and receiving -/

theorem World.deliver_instance (w : World) (m : Message) :
    (w.deliver m).instances i = { w.instances i with
      inbox := (w.instances i).inbox ++ if (w.instances i).subscribed then [m] else [] } := by
  show (if (w.instances i).subscribed then _ else _) = _
  split
  · rfl
  · rw [List.append_nil]

theorem count_erase_of_mem {xs : List ℕ} {a : ℕ} (h : a ∈ xs) (n : ℕ) :
    (xs.erase a).count n + (if n = a then 1 else 0) = xs.count n := by
  have hpos : 0 < xs.count a := List.count_pos_iff.mpr h
  by_cases hn : n = a
  · subst hn
    rw [if_pos rfl, List.count_erase_self]
    omega
  · rw [if_neg hn, List.count_erase_of_ne hn, Nat.add_zero]

theorem Relayed.publish {exact : Prop} (h : Relayed x exact i w) {serial : ℕ} {ok : Bool}
    (hok : exact → Reliable i w (.publish serial ok)) (hs : w.step x (.publish serial ok) = some w') :
    Relayed x exact i w' := by
  simp only [World.step] at hs
  split at hs
  · next hmem =>
    have hcount := fun n => count_erase_of_mem hmem n
    have hpending : ∀ n ∈ w.pending.erase serial, n < w.emitted.length :=
      fun n hn => h.pending n (List.mem_of_mem_erase hn)
    split at hs
    · cases hs
    · next em hem =>
      split at hs
      · cases hs
        let m : Message := { serial, text := x.toText (payload (x.name em.origin) em.event) }
        have hinst := World.deliver_instance (i := i) { w with pending := w.pending.erase serial } m
        have hinboxcount : ∀ n, ((({ w with pending := w.pending.erase serial }.deliver m).instances i).inbox.map
            Message.serial).count n = ((w.instances i).inbox.map Message.serial).count n +
              if (w.instances i).subscribed ∧ n = serial then 1 else 0 := by
          intro n
          rw [hinst]
          by_cases hsub : (w.instances i).subscribed = true
          · simp only [hsub, if_true, true_and, List.map_append, List.map_singleton]
            exact count_snoc_if _ _ _
          · simp [hsub]
        have htally : ∀ n, tally ({ w with pending := w.pending.erase serial }.deliver m) i n ≤ tally w i n ∧
            ((w.instances i).subscribed = true →
              tally ({ w with pending := w.pending.erase serial }.deliver m) i n = tally w i n) := by
          intro n
          have hc := hcount n
          have hi := hinboxcount n
          have hlog : ((({ w with pending := w.pending.erase serial }.deliver m).instances i).log.map
              Prod.fst).count n = ((w.instances i).log.map Prod.fst).count n := by rw [hinst]
          have hunfold : tally ({ w with pending := w.pending.erase serial }.deliver m) i n =
              ((w.instances i).log.map Prod.fst).count n +
                if (w.emitted[n]?).any (fun em => em.origin = i) then 0
                else ((w.instances i).inbox.map Message.serial).count n +
                  (if (w.instances i).subscribed ∧ n = serial then 1 else 0) +
                    (w.pending.erase serial).count n := by
            rw [tally, hlog, hi]
            rfl
          rw [hunfold, tally]
          split
          · exact ⟨Nat.le_refl _, fun _ => rfl⟩
          · constructor
            · split <;> split at hc <;> omega
            · intro hsub
              simp only [hsub, true_and]
              omega
        refine ⟨h.typed, hpending, ?_, ?_, ?_, ?_, ?_⟩
        · intro m' hm'
          rw [hinst] at hm'
          rcases List.mem_append.mp hm' with hm' | hm'
          · exact h.inbox m' hm'
          · split at hm'
            · rw [List.mem_singleton.mp hm']
              exact ⟨em, hem, rfl⟩
            · cases hm'
        · rw [hinst]
          exact h.log
        · intro n
          exact (htally n).1.trans (h.once n)
        · intro he n hn
          rw [(htally n).2 (hok he).2]
          exact h.all he n hn
        · rw [hinst]
          exact h.own
      · next hfail =>
        cases hs
        have hnot : ¬ exact := fun he => hfail (hok he).1
        refine ⟨h.typed, hpending, h.inbox, h.log, ?_, fun he => absurd he hnot, h.own⟩
        intro n
        have hle : tally { w with pending := w.pending.erase serial } i n ≤ tally w i n := by
          refine tally_le_of rfl (Nat.le_refl _) (Nat.le_refl _) ?_
          have hc := hcount n
          show (w.pending.erase serial).count n ≤ w.pending.count n
          omega
        exact hle.trans (h.once n)
  · cases hs

theorem Relayed.receive {exact : Prop} (hname : Function.Injective x.name) (h : Relayed x exact i w) {j : InstanceId} (hs : w.step x (.receive j) = some w') :
    Relayed x exact i w' := by
  simp only [World.step] at hs
  by_cases hij : i = j
  · subst hij
    split at hs
    · cases hs
    · next m rest hinbox =>
      obtain ⟨em, hem, hm⟩ := h.inbox m (by rw [hinbox]; exact List.mem_cons_self)
      have hmem := List.mem_of_getElem? hem
      have hreadable := h.typed em hmem
      have hread := receivedEvent_payload i hname hreadable.2 hreadable.1
      rw [← hm] at hread
      have hrest : ∀ m' ∈ rest, m'.Genuine x w := by
        intro m' hm'
        exact h.inbox m' (by rw [hinbox]; exact List.mem_cons_of_mem _ hm')
      have hcount : ∀ n, ((w.instances i).inbox.map Message.serial).count n =
          (rest.map Message.serial).count n + if n = m.serial then 1 else 0 := by
        intro n
        rw [hinbox, List.map_cons]
        exact count_cons_if _ _ _
      split at hs
      · next hnone =>
        cases hs
        have horigin : em.origin = i := by
          by_contra hne
          rw [if_neg hne, hnone] at hread
          cases hread
        have hsame : (w.setInstance i { w.instances i with inbox := rest }).instances i =
            { w.instances i with inbox := rest } := Function.update_self ..
        have htally : ∀ n, tally (w.setInstance i { w.instances i with inbox := rest }) i n = tally w i n := by
          intro n
          rw [tally, hsame, tally, hcount n]
          show _ + (if (w.emitted[n]?).any _ then 0 else _) = _
          by_cases hn : n = m.serial
          · have hany : (w.emitted[n]?).any (fun em => em.origin = i) = true := by
              rw [hn, hem]
              simpa using horigin
            rw [if_pos hany, if_pos hany]
          · rw [if_neg hn]
            rfl
        refine ⟨h.typed, h.pending, ?_, ?_, ?_, ?_, ?_⟩
        · rw [hsame]
          exact hrest
        · rw [hsame]
          exact h.log
        · intro n
          rw [htally]
          exact h.once n
        · intro he n hn
          rw [htally]
          exact h.all he n hn
        · rw [hsame]
          exact h.own
      · next event hsome =>
        cases hs
        rw [hsome] at hread
        have horigin : em.origin ≠ i := by
          intro heq
          rw [if_pos heq] at hread
          cases hread
        rw [if_neg horigin] at hread
        have hevent : event = em.event := Option.some.inj hread
        let inst : Instance := { w.instances i with
          inbox := rest, log := (w.instances i).log ++ [(m.serial, event)] }
        have hsame : (w.setInstance i inst).instances i = inst := Function.update_self ..
        have htally : ∀ n, tally (w.setInstance i inst) i n = tally w i n := by
          intro n
          have hlog : (inst.log.map Prod.fst).count n =
              ((w.instances i).log.map Prod.fst).count n + if n = m.serial then 1 else 0 := by
            show (((w.instances i).log ++ [(m.serial, event)]).map Prod.fst).count n = _
            rw [List.map_append, List.map_singleton]
            exact count_snoc_if _ _ _
          rw [tally, hsame, tally, hcount n, hlog]
          show _ + (if (w.emitted[n]?).any _ then 0 else (rest.map Message.serial).count n + _) = _
          by_cases hn : n = m.serial
          · have hany : ¬ (w.emitted[n]?).any (fun em => em.origin = i) = true := by
              rw [hn, hem]
              simpa using horigin
            rw [if_neg hany, if_neg hany, if_pos hn]
            show _ + (_ + w.pending.count n) = _
            omega
          · rw [if_neg hn]
            rfl
        refine ⟨h.typed, h.pending, ?_, ?_, ?_, ?_, ?_⟩
        · rw [hsame]
          exact hrest
        · rw [hsame]
          intro p hp
          rcases List.mem_append.mp hp with hp | hp
          · exact h.log p hp
          · rw [List.mem_singleton.mp hp, hevent]
            show Option.map _ w.emitted[m.serial]? = _
            rw [hem]
            rfl
        · intro n
          rw [htally]
          exact h.once n
        · intro he n hn
          rw [htally]
          exact h.all he n hn
        · rw [hsame]
          intro n em' hem' horigin'
          exact List.mem_append_left _ (h.own n em' hem' horigin')
  · have hother : ∀ inst, (w.setInstance j inst).instances i = w.instances i :=
      fun inst => Function.update_of_ne hij ..
    split at hs
    · cases hs
    · split at hs
      · cases hs
        exact h.of_same rfl (hother _) rfl
      · cases hs
        exact h.of_same rfl (hother _) rfl

theorem Relayed.step {exact : Prop} (hname : Function.Injective x.name) (h : Relayed x exact i w) {a : Act}
    (htyped : Typed x a) (hok : exact → Reliable i w a) (hs : w.step x a = some w') :
    Relayed x exact i w' := by
  have hother : ∀ j inst, i ≠ j → (w.setInstance j inst).instances i = w.instances i :=
    fun j inst hij => Function.update_of_ne hij ..
  have hself : ∀ inst, (w.setInstance i inst).instances i = inst := fun inst => Function.update_self ..
  cases a with
  | broadcast j event =>
    cases hs
    exact h.broadcast htyped
  | publish serial ok => exact h.publish hok hs
  | receive j => exact h.receive hname hs
  | subscribe j =>
    cases hs
    by_cases hij : i = j
    · subst hij
      have hinst := hself { w.instances i with subscribed := true }
      refine ⟨h.typed, h.pending, ?_, ?_, ?_, ?_, ?_⟩
      · rw [hinst]
        exact h.inbox
      · rw [hinst]
        exact h.log
      · intro n
        rw [tally, hinst]
        exact h.once n
      · intro he n hn
        rw [tally, hinst]
        exact h.all he n hn
      · rw [hinst]
        exact h.own
    · exact h.of_same rfl (hother j _ hij) rfl
  | lose j count =>
    cases hs
    by_cases hij : i = j
    · subst hij
      have hnot : ¬ exact := fun he => hok he rfl
      refine h.of_lost hnot rfl rfl ?_ ?_
      · rw [hself]
      · rw [hself]
        exact List.drop_sublist _ _
    · exact h.of_same rfl (hother j _ hij) rfl
  | stop j =>
    cases hs
    by_cases hij : i = j
    · subst hij
      have hnot : ¬ exact := fun he => hok he rfl
      refine h.of_lost hnot rfl rfl ?_ ?_
      · rw [hself]
      · rw [hself]
        exact List.nil_sublist _
    · exact h.of_same rfl (hother j _ hij) rfl

theorem relayed_of_run (exact : Prop) (i : InstanceId) (hname : Function.Injective x.name)
    (h : Run (World.step x) (fun w a => Typed x a ∧ (exact → Reliable i w a)) World.init w) :
    Relayed x exact i w := by
  have hinit : Relayed x exact i World.init := by
    constructor <;> simp [World.init, tally]
  exact h.invariant hinit fun v v' a _ hv hok hs => hv.step hname hok.1 hok.2 hs

end Runs

/-- In every interleaving of the instances, the channel of each has an event at most once, only events
that were broadcast, as they were, and all of its own. If nothing is lost on the way to an instance, it
has every event of every instance exactly once as soon as all are published and its inbox is empty. -/
theorem event_relayed (x : Wire) (hname : Function.Injective x.name) {w : World} :
    (Run (World.step x) (fun _ a => Typed x a) World.init w → ∀ i,
      ((w.instances i).log.map Prod.fst).Nodup ∧
        (∀ p ∈ (w.instances i).log, (w.emitted[p.1]?).map Emission.event = some p.2) ∧
        ∀ n em, w.emitted[n]? = some em → em.origin = i → (n, em.event) ∈ (w.instances i).log) ∧
      ∀ i, Run (World.step x) (fun w a => Typed x a ∧ Reliable i w a) World.init w →
        w.pending = [] → (w.instances i).inbox = [] →
          ((w.instances i).log.map Prod.fst).Perm (List.range w.emitted.length) := by
  have hnodup : ∀ {exact : Prop} {i : InstanceId}, Relayed x exact i w →
      ((w.instances i).log.map Prod.fst).Nodup := by
    intro exact i h
    refine List.nodup_iff_count_le_one.mpr fun n => ?_
    have honce := h.once n
    unfold tally at honce
    omega
  refine ⟨fun hrun i => ?_, fun i hrun hpending hinbox => ?_⟩
  · have h := relayed_of_run False i hname
      (hrun.mono fun _ _ htyped => ⟨htyped, fun he => absurd he id⟩)
    exact ⟨hnodup h, h.log, h.own⟩
  · have h := relayed_of_run True i hname
      (hrun.mono fun _ _ hok => ⟨hok.1, fun _ => hok.2⟩)
    refine (List.perm_ext_iff_of_nodup (hnodup h) List.nodup_range).mpr fun n => ?_
    rw [List.mem_range]
    constructor
    · intro hmem
      obtain ⟨p, hp, rfl⟩ := List.mem_map.mp hmem
      obtain ⟨em, hem, -⟩ := Option.map_eq_some_iff.mp (h.log p hp)
      exact (List.getElem?_eq_some_iff.mp hem).1
    · intro hn
      have hone := h.all trivial n hn
      simp only [tally, hpending, hinbox, List.map_nil, List.count_nil] at hone
      have hpos : 0 < ((w.instances i).log.map Prod.fst).count n := by
        split at hone <;> omega
      exact List.count_pos_iff.mp hpos

def sampleEvent : JobStatusEvent :=
  { id := "job_1", status := "running", modelName := "m", providerType := "ollama", latencyMs := some (-3) }

/-- Instance `n` is called by `n` times the letter `i`. -/
def sampleName (n : InstanceId) : String := String.ofList (List.replicate n 'i')

def sampleText : String :=
  "\x7b\"id\":\"job_1\",\"status\":\"running\",\"model_name\":\"m\",\"provider_type\":\"ollama\",\"latency_ms\":-3,\"instance_id\":\"i\"\x7d"

def sampleWire : Wire :=
  { toText := fun _ => sampleText
    fromStr := fun text => if text = sampleText then some (payload (sampleName 1) sampleEvent) else none
    name := sampleName }

theorem sampleName_injective : Function.Injective sampleWire.name := by
  intro a b h
  have hlist : List.replicate a 'i' = List.replicate b 'i' := String.ofList_injective h
  have hlength := congrArg List.length hlist
  rwa [List.length_replicate, List.length_replicate] at hlength

def sampleActs : List Act :=
  [Act.subscribe 1, Act.subscribe 2, Act.broadcast 1 sampleEvent, Act.publish 0 true, Act.receive 2,
    Act.receive 1]

def sampleOk (w : World) : Act → Bool
  | .broadcast i event => decide (i = 1 ∧ event = sampleEvent)
  | .publish _ ok => ok && (w.instances 2).subscribed
  | .lose _ _ | .stop _ => false
  | _ => true

theorem sample_relayed : ∃ w, Run (World.step sampleWire)
      (fun w a => Typed sampleWire a ∧ Reliable 2 w a) World.init w ∧
    (w.instances 2).log = [(0, sampleEvent)] ∧
    ((w.instances 2).log.map Prod.fst).Perm (List.range w.emitted.length) := by
  have hexec : ((exec (World.step sampleWire) sampleOk World.init sampleActs).any fun w =>
      decide ((w.instances 2).log = [(0, sampleEvent)] ∧ w.pending = []) &&
        (w.instances 2).inbox.isEmpty) = true := by
    decide +kernel
  have hread : Readable sampleWire { origin := 1, event := sampleEvent } := by
    constructor
    · intro n hn
      cases hn
      omega
    · rfl
  obtain ⟨w, hrun, hw⟩ := @Run.exists_of_exec _ _ (World.step sampleWire) sampleOk
      (fun w a => Typed sampleWire a ∧ Reliable 2 w a) (by
    intro s a h
    cases a with
    | broadcast i event =>
      obtain ⟨rfl, rfl⟩ := of_decide_eq_true h
      exact ⟨hread, trivial⟩
    | publish serial ok =>
      simp only [sampleOk, Bool.and_eq_true] at h
      exact ⟨trivial, h⟩
    | lose j count => cases h
    | stop j => cases h
    | _ => exact ⟨trivial, trivial⟩) _ _ _ hexec
  rw [Bool.and_eq_true, decide_eq_true_eq, List.isEmpty_iff] at hw
  obtain ⟨⟨hlog, hpending⟩, hinbox⟩ := hw
  exact ⟨w, hrun, hlog, (event_relayed sampleWire sampleName_injective).2 2 hrun hpending hinbox⟩

end Veronex.EventRelay
