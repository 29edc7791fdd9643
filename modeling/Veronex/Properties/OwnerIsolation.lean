import Veronex.Foundation.Lockstep
import Veronex.Conversation.Handoffs

/-! # Conversations of different owners

Chat requests load records while the writers of `Conversation.Record` go on. Two runs side by side
that differ in what the turns of one owner say: what the requests of the others are given.
-/
namespace Veronex
open Concurrency
set_option autoImplicit false

/-! ## Chat requests -/

/-- A request that has the record of its conversation. -/
structure ChatLoad where
  key : RecordKey
  record : ConversationRecord

/-- `given` are the messages of the jobs, or a rejection, by owner. -/
structure ChatState where
  records : RecordConfig
  loads : List ChatLoad
  given : List (Uuid × Option (List Json))

inductive ChatAction
  | record (a : RecordAction)
  /-- A request goes on with the record it has; `messages` are its own. -/
  | answer (k : ℕ) (surface : Surface) (env : LoadEnv) (messages : List Json)

/-- What the next call of a loader gives it. -/
def RecordReader.loaded (s : RecordStore) (r : RecordReader) (reply : Reply) :
    Option ConversationRecord :=
  match r.pc, reply with
  | .readCache, .ok => (s.cached r.key.conversation).map Prod.snd
  | .get, .ok => s.stored r.key
  | _, _ => none

def RecordTask.loaded (s : RecordStore) (reply : Reply) : RecordTask → Option ChatLoad
  | .read r => (r.loaded s reply).map fun record => { key := r.key, record }
  | .write _ | .compress _ => none

def RecordConfig.loaded (c : RecordConfig) : RecordAction → Option ChatLoad
  | .run k _ reply => (c.tasks[k]?).bind fun t => t.loaded c.store reply
  | .write .. | .read .. | .expire _ => none

/-- The store after a request went on: a handoff puts its record under the new conversation. -/
def ChatLoad.stores (l : ChatLoad) (env : LoadEnv) (s : RecordStore) : RecordStore :=
  match conversationContext env l.key.conversation l.record with
  | some (_, newId, some newRecord) => s.put { owner := l.key.owner, conversation := newId } newRecord
  | some (_, _, none) | none => s

/-- Whether the request is rejected, and the conversation it goes on in. -/
def ChatLoad.course (l : ChatLoad) (env : LoadEnv) : Option (Uuid × Bool) :=
  (conversationContext env l.key.conversation l.record).map fun p => (p.2.1, p.2.2.isSome)

namespace ChatState

def init (stored : RecordKey → Option ConversationRecord) : ChatState :=
  { records := .init stored, loads := [], given := [] }

def step (c : ChatState) : ChatAction → Option ChatState
  | .record a => do
    let records ← c.records.step a
    return { c with records, loads := c.loads ++ (c.records.loaded a).toList }
  | .answer k surface env messages => do
    let l ← c.loads[k]?
    return { records := { c.records with store := l.stores env c.records.store }
             loads := c.loads.eraseIdx k
             given := c.given ++ [(l.key.owner,
               jobMessages surface env l.key.conversation l.record messages)] }

/-- What the requests of an owner were given. -/
def givenTo (c : ChatState) (owner : Uuid) : List (Option (List Json)) :=
  (c.given.filter fun g => g.1 = owner).map Prod.snd

end ChatState

/-! ## Records that only differ in what they say -/

inductive TurnAlike : ConversationTurn → ConversationTurn → Prop
  | handoff (turn turn' : HandoffTurn) : TurnAlike (.handoff turn) (.handoff turn')
  | regular {turn turn' : TurnRecord} {c c' : Option CompressedTurn} (hjob : turn'.jobId = turn.jobId)
      (hc : c'.isSome = c.isSome) : TurnAlike (.regular turn c) (.regular turn' c')

abbrev RecordAlike : ConversationRecord → ConversationRecord → Prop := List.Forall₂ TurnAlike

theorem RecordAlike.refl (record : ConversationRecord) : RecordAlike record record := by
  induction record with
  | nil => exact .nil
  | cons turn rest ih =>
    cases turn with
    | handoff turn => exact .cons (.handoff turn turn) ih
    | regular turn c => exact .cons (.regular rfl rfl) ih

theorem findTurn_alike {r r' : ConversationRecord} (h : RecordAlike r r') (jobId : Uuid) :
    Option.Rel (fun p p' => p'.2.isSome = p.2.isSome) (findTurn jobId r) (findTurn jobId r') := by
  induction h with
  | nil => exact .none
  | cons hturn _ ih =>
    cases hturn with
    | handoff turn turn' => exact ih
    | regular hjob hc =>
      simp only [findTurn, hjob]
      split
      · exact .some hc
      · exact ih

theorem setCompressed_alike {r r' : ConversationRecord} (h : RecordAlike r r') (jobId : Uuid)
    (compressed compressed' : CompressedTurn) :
    RecordAlike (setCompressed jobId compressed r) (setCompressed jobId compressed' r') := by
  induction h with
  | nil => exact .nil
  | cons hturn hrest ih =>
    cases hturn with
    | handoff turn turn' => exact .cons (.handoff turn turn') ih
    | regular hjob hc =>
      simp only [setCompressed, hjob]
      split
      · exact .cons (.regular hjob rfl) hrest
      · exact .cons (.regular hjob hc) ih

/-- The records of the owner `A` may differ in what they say. -/
structure SeenAs (A owner : Uuid) (r r' : ConversationRecord) : Prop where
  alike : RecordAlike r r'
  same : owner ≠ A → r' = r

/-! ## States side by side -/

section Relation
variable (A : Uuid)

structure StoreAlike (s s' : RecordStore) : Prop where
  stored : ∀ key, Option.Rel (SeenAs A key.owner) (s.stored key) (s'.stored key)
  cached : ∀ conversation, Option.Rel (fun e e' => e'.1 = e.1 ∧ SeenAs A e.1 e.2 e'.2)
    (s.cached conversation) (s'.cached conversation)

inductive TurnWriterPc.Alike (P : ConversationRecord → ConversationRecord → Prop) :
    TurnWriterPc → TurnWriterPc → Prop
  | get : Alike P .get .get
  | put {r r' : ConversationRecord} (h : P r r') : Alike P (.put r) (.put r')
  | setCache {r r' : ConversationRecord} (h : P r r') : Alike P (.setCache r) (.setCache r')
  | spawn : Alike P .spawn .spawn
  | delCache : Alike P .delCache .delCache
  | finished : Alike P .finished .finished

structure TurnWriter.Alike (a a' : TurnWriter) : Prop where
  site : a'.site = a.site
  owner : a'.owner = a.owner
  conversationId : a'.conversationId = a.conversationId
  jobId : a'.turn.jobId = a.turn.jobId
  turn : a.owner ≠ A → a'.turn = a.turn
  pc : TurnWriterPc.Alike (SeenAs A a.owner) a.pc a'.pc

inductive CompressPc.Alike (P : ConversationRecord → ConversationRecord → Prop) :
    CompressPc → CompressPc → Prop
  | readCache : Alike P .readCache .readCache
  | get : Alike P .get .get
  | summarize {r r' : ConversationRecord} (h : P r r') : Alike P (.summarize r) (.summarize r')
  | put {r r' : ConversationRecord} (h : P r r') : Alike P (.put r) (.put r')
  | delCache : Alike P .delCache .delCache
  | finished : Alike P .finished .finished

structure TurnCompressor.Alike (c c' : TurnCompressor) : Prop where
  key : c'.key = c.key
  jobId : c'.jobId = c.jobId
  model : c'.model = c.model
  pc : CompressPc.Alike (SeenAs A c.key.owner) c.pc c'.pc

inductive ReaderPc.Alike (P : ConversationRecord → ConversationRecord → Prop) :
    ReaderPc → ReaderPc → Prop
  | readCache : Alike P .readCache .readCache
  | get : Alike P .get .get
  | setCache {r r' : ConversationRecord} (h : P r r') : Alike P (.setCache r) (.setCache r')
  | finished : Alike P .finished .finished

structure RecordReader.Alike (r r' : RecordReader) : Prop where
  key : r'.key = r.key
  pc : ReaderPc.Alike (SeenAs A r.key.owner) r.pc r'.pc

inductive RecordTask.Alike : RecordTask → RecordTask → Prop
  | write {a a' : TurnWriter} (h : a.Alike A a') : Alike (.write a) (.write a')
  | compress {c c' : TurnCompressor} (h : c.Alike A c') : Alike (.compress c) (.compress c')
  | read {r r' : RecordReader} (h : r.Alike A r') : Alike (.read r) (.read r')

structure RecordConfig.Alike (c c' : RecordConfig) : Prop where
  store : StoreAlike A c.store c'.store
  tasks : List.Forall₂ (RecordTask.Alike A) c.tasks c'.tasks

structure ChatLoad.Alike (l l' : ChatLoad) : Prop where
  key : l'.key = l.key
  record : SeenAs A l.key.owner l.record l'.record

structure ChatState.Alike (c c' : ChatState) : Prop where
  records : c.records.Alike A c'.records
  loads : List.Forall₂ (ChatLoad.Alike A) c.loads c'.loads
  given : ∀ B, B ≠ A → c'.givenTo B = c.givenTo B

/-! ## Actions side by side -/

/-- The answers of a call: the same, or for `A` one that says something else. -/
inductive ReplyAlike (owner : Uuid) : Reply → Reply → Prop
  | ok : ReplyAlike owner .ok .ok
  | error : ReplyAlike owner .error .error
  | content {text text' : String} (hempty : trim text.toList = [] ↔ trim text'.toList = [])
      (hsame : owner ≠ A → text' = text) : ReplyAlike owner (.content text) (.content text')

inductive RecordActionAlike (c : RecordConfig) : RecordAction → RecordAction → Prop
  | write (site : TurnSite) {owner : Uuid} (conversationId : Option Uuid) {turn turn' : TurnRecord}
      (hjob : turn'.jobId = turn.jobId) (hsame : owner ≠ A → turn' = turn) :
      RecordActionAlike c (.write site owner conversationId turn) (.write site owner conversationId turn')
  | read (key : RecordKey) (today : Bool) : RecordActionAlike c (.read key today) (.read key today)
  | run (k : ℕ) (model : String) {reply reply' : Reply}
      (h : ∀ t, c.tasks[k]? = some t → ReplyAlike A t.key.owner reply reply') :
      RecordActionAlike c (.run k model reply) (.run k model reply')
  | expire (conversation : Uuid) : RecordActionAlike c (.expire conversation) (.expire conversation)

inductive ChatActionAlike (c c' : ChatState) : ChatAction → ChatAction → Prop
  | record {a a' : RecordAction} (h : RecordActionAlike A c.records a a') :
      ChatActionAlike c c' (.record a) (.record a')
  /-- A request of `A` may be answered otherwise, but is rejected or handed off in both. -/
  | answer (k : ℕ) {surface surface' : Surface} {env env' : LoadEnv} {messages messages' : List Json}
      (hsame : ∀ l, c.loads[k]? = some l → l.key.owner ≠ A →
        surface' = surface ∧ env' = env ∧ messages' = messages)
      (hshape : ∀ l l', c.loads[k]? = some l → c'.loads[k]? = some l' → l'.course env' = l.course env) :
      ChatActionAlike c c' (.answer k surface env messages) (.answer k surface' env' messages')

end Relation

/-! ## Cache hits -/

/-- A task of another owner does not take over what is cached for `A`: a loader finds no such entry,
and a compression finds none with its turn. -/
def RecordTask.OwnHit (A : Uuid) (s : RecordStore) (reply : Reply) : RecordTask → Prop
  | .write _ => True
  | .compress c => match c.pc, reply with
    | .readCache, .ok => ∀ record, s.cached c.key.conversation = some (A, record) →
        c.key.owner = A ∨ findTurn c.jobId record = none
    | _, _ => True
  | .read r => match r.pc, reply with
    | .readCache, .ok => ∀ record, s.cached r.key.conversation = some (A, record) → r.key.owner = A
    | _, _ => True

def RecordConfig.OwnHits (A : Uuid) (c : RecordConfig) : RecordAction → Prop
  | .run k _ reply => ∀ t, c.tasks[k]? = some t → t.OwnHit A c.store reply
  | .write .. | .read .. | .expire _ => True

def ChatState.OwnHits (A : Uuid) (c : ChatState) : ChatAction → Prop
  | .record a => c.records.OwnHits A a
  | .answer .. => True

/-! ## The store -/

section Store
variable {A : Uuid} {s s' : RecordStore} {key : RecordKey} {r r' : ConversationRecord}

theorem SeenAs.refl (owner : Uuid) (r : ConversationRecord) : SeenAs A owner r r :=
  ⟨.refl r, fun _ => rfl⟩

theorem SeenAs.snoc {owner : Uuid} {turn turn' : TurnRecord} (h : SeenAs A owner r r')
    (hjob : turn'.jobId = turn.jobId) (hsame : owner ≠ A → turn' = turn) :
    SeenAs A owner (r ++ [.regular turn none]) (r' ++ [.regular turn' none]) := by
  refine ⟨List.rel_append h.alike (.cons (.regular hjob rfl) .nil), fun hne => ?_⟩
  rw [h.same hne, hsame hne]

theorem StoreAlike.turns (h : StoreAlike A s s') (key : RecordKey) :
    SeenAs A key.owner (s.turns key) (s'.turns key) := by
  have hrel := h.stored key
  rw [RecordStore.turns, RecordStore.turns]
  cases hs : s.stored key <;> cases hs' : s'.stored key <;> rw [hs, hs'] at hrel <;> cases hrel
  · exact .refl _ _
  · assumption

theorem StoreAlike.put (h : StoreAlike A s s') (hr : SeenAs A key.owner r r') :
    StoreAlike A (s.put key r) (s'.put key r') := by
  refine ⟨fun key' => ?_, h.cached⟩
  by_cases hkey : key' = key
  · subst hkey
    simpa [RecordStore.put] using hr
  · simpa [RecordStore.put, Function.update_of_ne hkey] using h.stored key'

theorem StoreAlike.setCache (h : StoreAlike A s s') (hr : SeenAs A key.owner r r') :
    StoreAlike A (s.setCache key r) (s'.setCache key r') := by
  refine ⟨h.stored, fun conversation => ?_⟩
  by_cases hconv : conversation = key.conversation
  · subst hconv
    simpa [RecordStore.setCache] using hr
  · simpa [RecordStore.setCache, Function.update_of_ne hconv] using h.cached conversation

theorem StoreAlike.delCache (h : StoreAlike A s s') (deleted : Uuid) :
    StoreAlike A (s.delCache deleted) (s'.delCache deleted) := by
  refine ⟨h.stored, fun conversation => ?_⟩
  by_cases hconv : conversation = deleted
  · simp [RecordStore.delCache, hconv]
  · simpa [RecordStore.delCache, Function.update_of_ne hconv] using h.cached conversation

end Store

/-! ## One call -/

section Call
variable {A : Uuid} {s s' : RecordStore} {reply reply' : Reply}

/-- What a task leaves: the store, itself and the tasks it starts. -/
def StepAlike (A : Uuid) {τ υ : Type} (R : τ → τ → Prop) (S : υ → υ → Prop)
    (m m' : RecordStore × τ × List υ) : Prop :=
  StoreAlike A m.1 m'.1 ∧ R m.2.1 m'.2.1 ∧ List.Forall₂ S m.2.2 m'.2.2

theorem TurnWriter.Alike.key_eq {a a' : TurnWriter} (h : a.Alike A a') : a'.key = a.key := by
  rw [TurnWriter.key, TurnWriter.key, h.owner, h.conversationId, h.jobId]

theorem TurnWriter.Alike.goto {a a' : TurnWriter} (h : a.Alike A a') {pc pc' : TurnWriterPc}
    (hpc : TurnWriterPc.Alike (SeenAs A a.owner) pc pc') : (a.goto pc).Alike A (a'.goto pc') :=
  ⟨h.site, h.owner, h.conversationId, h.jobId, h.turn, hpc⟩

theorem TurnWriter.Alike.afterPut {a a' : TurnWriter} (h : a.Alike A a') {r r' : ConversationRecord}
    (hr : SeenAs A a.owner r r') :
    TurnWriterPc.Alike (SeenAs A a.owner) (a.afterPut r) (a'.afterPut r') := by
  rw [TurnWriter.afterPut, TurnWriter.afterPut, h.site, h.conversationId]
  split
  · exact .setCache hr
  · exact .delCache
  · exact .finished

theorem turnWriter_alike (model : String) {a a' : TurnWriter} (hs : StoreAlike A s s') (ha : a.Alike A a')
    (hreply : ReplyAlike A a.owner reply reply') :
    Option.Rel (StepAlike A (TurnWriter.Alike A) (TurnCompressor.Alike A)) (a.step s model reply)
      (a'.step s' model reply') := by
  have hkey := ha.key_eq
  have hpc := ha.pc
  generalize hp : a.pc = pc at hpc
  generalize hp' : a'.pc = pc' at hpc
  cases hpc with
  | get =>
    cases hreply <;> simp only [TurnWriter.step, hp, hp', hkey]
    · exact .some ⟨hs, ha.goto (.put (hs.turns a.key)), .nil⟩
    · exact .some ⟨hs, ha.goto (.put (.refl _ _)), .nil⟩
    · exact .none
  | put h =>
    cases hreply <;> simp only [TurnWriter.step, hp, hp', hkey]
    · have hrecord := h.snoc ha.jobId ha.turn
      exact .some ⟨hs.put hrecord, ha.goto (ha.afterPut hrecord), .nil⟩
    · exact .some ⟨hs, ha.goto .finished, .nil⟩
    · exact .none
  | setCache h =>
    cases hreply <;> simp only [TurnWriter.step, hp, hp', hkey]
    · exact .some ⟨hs.setCache h, ha.goto .spawn, .nil⟩
    · exact .some ⟨hs, ha.goto .spawn, .nil⟩
    · exact .none
  | spawn =>
    cases hreply <;> simp only [TurnWriter.step, hp, hp', hkey]
    · exact .some ⟨hs, ha.goto .finished, .cons ⟨rfl, ha.jobId, rfl, .readCache⟩ .nil⟩
    · exact .some ⟨hs, ha.goto .finished, .nil⟩
    · exact .none
  | delCache =>
    cases hreply <;> simp only [TurnWriter.step, hp, hp', hkey]
    · exact .some ⟨hs.delCache _, ha.goto .finished, .nil⟩
    · exact .some ⟨hs, ha.goto .finished, .nil⟩
    · exact .none
  | finished => cases hreply <;> simp only [TurnWriter.step, hp, hp'] <;> exact .none

theorem TurnCompressor.Alike.goto {c c' : TurnCompressor} (h : c.Alike A c') {pc pc' : CompressPc}
    (hpc : CompressPc.Alike (SeenAs A c.key.owner) pc pc') : (c.goto pc).Alike A (c'.goto pc') :=
  ⟨h.key, h.jobId, h.model, hpc⟩

theorem TurnCompressor.Alike.found {c c' : TurnCompressor} (h : c.Alike A c')
    {r r' : ConversationRecord} (hr : SeenAs A c.key.owner r r') : (c.found r).Alike A (c'.found r') := by
  have hrel := findTurn_alike hr.alike c.jobId
  rw [TurnCompressor.found, TurnCompressor.found, h.jobId]
  generalize findTurn c.jobId r = p at hrel
  generalize findTurn c.jobId r' = p' at hrel
  cases hrel with
  | none => exact h.goto .finished
  | @some p p' hp =>
    obtain ⟨turn, compressed⟩ := p
    obtain ⟨turn', compressed'⟩ := p'
    cases compressed <;> cases compressed' <;> cases hp
    · exact h.goto (.summarize hr)
    · exact h.goto .finished

/-- A record that has no turn of the job. -/
theorem TurnCompressor.Alike.not_found {c c' : TurnCompressor} (h : c.Alike A c')
    {r r' : ConversationRecord} (hr : RecordAlike r r') (hnone : findTurn c.jobId r = none) :
    (c.found r).Alike A (c'.found r') := by
  have hrel := findTurn_alike hr c.jobId
  rw [hnone] at hrel
  rw [TurnCompressor.found, TurnCompressor.found, h.jobId, hnone]
  generalize findTurn c.jobId r' = p' at hrel
  cases hrel
  exact h.goto .finished

theorem TurnCompressor.Alike.compressed {c c' : TurnCompressor} (h : c.Alike A c')
    {r r' : ConversationRecord} (hr : SeenAs A c.key.owner r r') {text text' : String}
    (hempty : trim text.toList = [] ↔ trim text'.toList = []) (hsame : c.key.owner ≠ A → text' = text) :
    (c.compressed r text).Alike A (c'.compressed r' text') := by
  have hblank : ∀ text : String, String.ofList (trim text.toList) = "" ↔ trim text.toList = [] :=
    fun text => ⟨fun heq => by simpa using congrArg String.toList heq, fun heq => by rw [heq]⟩
  have hrel := findTurn_alike hr.alike c.jobId
  simp only [TurnCompressor.compressed, h.jobId, h.model]
  cases hfound : findTurn c.jobId r with
  | none =>
    rw [hfound] at hrel
    cases hfound' : findTurn c.jobId r' with
    | none => exact h.goto .finished
    | some p' =>
      rw [hfound'] at hrel
      cases hrel
  | some p =>
    rw [hfound] at hrel
    cases hfound' : findTurn c.jobId r' with
    | none =>
      rw [hfound'] at hrel
      cases hrel
    | some p' =>
      by_cases htext : trim text.toList = []
      · have htext' := hempty.mp htext
        simp only [(hblank _).mpr htext, (hblank _).mpr htext', if_true]
        exact h.goto .finished
      · have htext' := fun heq => htext (hempty.mpr heq)
        simp only [(hblank _).not.mpr htext, (hblank _).not.mpr htext', if_false]
        refine h.goto (.put ⟨setCompressed_alike hr.alike _ _ _, fun hne => ?_⟩)
        have hr' := hr.same hne
        rw [hr', hfound] at hfound'
        rw [hr', hsame hne, Option.some.inj hfound']

theorem turnCompressor_alike {c c' : TurnCompressor} (hs : StoreAlike A s s') (hc : c.Alike A c')
    (hreply : ReplyAlike A c.key.owner reply reply')
    (hown : (RecordTask.compress c).OwnHit A s reply) :
    Option.Rel (fun m m' => StoreAlike A m.1 m'.1 ∧ m.2.Alike A m'.2) (c.step s reply)
      (c'.step s' reply') := by
  have hkey := hc.key
  have hpc := hc.pc
  generalize hp : c.pc = pc at hpc
  generalize hp' : c'.pc = pc' at hpc
  cases hpc with
  | readCache =>
    cases hreply with
    | ok =>
      simp only [TurnCompressor.step, hp, hp', hkey]
      have hrel := hs.cached c.key.conversation
      simp only [RecordTask.OwnHit, hp] at hown
      generalize s.cached c.key.conversation = e at hrel hown
      generalize s'.cached c.key.conversation = e' at hrel
      cases hrel with
      | none => exact .some ⟨hs, hc.goto .get⟩
      | @some e e' he =>
        obtain ⟨owner, r⟩ := e
        obtain ⟨owner', r'⟩ := e'
        obtain ⟨-, hr⟩ := he
        refine .some ⟨hs, ?_⟩
        by_cases howner : owner = A
        · rcases hown r (by rw [howner]) with hA | hnone
          · exact hc.found ⟨hr.alike, fun hne => absurd hA hne⟩
          · exact hc.not_found hr.alike hnone
        · exact hc.found ⟨hr.alike, fun _ => hr.same howner⟩
    | error =>
      simp only [TurnCompressor.step, hp, hp']
      exact .some ⟨hs, hc.goto .get⟩
    | content hempty hsame =>
      simp only [TurnCompressor.step, hp, hp']
      exact .none
  | get =>
    cases hreply with
    | ok =>
      simp only [TurnCompressor.step, hp, hp', hkey]
      have hrel := hs.stored c.key
      generalize s.stored c.key = e at hrel
      generalize s'.stored c.key = e' at hrel
      cases hrel with
      | none => exact .some ⟨hs, hc.goto .finished⟩
      | some hr => exact .some ⟨hs, hc.found hr⟩
    | error =>
      simp only [TurnCompressor.step, hp, hp']
      exact .some ⟨hs, hc.goto .finished⟩
    | content hempty hsame =>
      simp only [TurnCompressor.step, hp, hp']
      exact .none
  | summarize h =>
    cases hreply with
    | ok =>
      simp only [TurnCompressor.step, hp, hp']
      exact .none
    | error =>
      simp only [TurnCompressor.step, hp, hp']
      exact .some ⟨hs, hc.goto .finished⟩
    | content hempty hsame =>
      simp only [TurnCompressor.step, hp, hp']
      exact .some ⟨hs, hc.compressed h hempty hsame⟩
  | put h =>
    cases hreply <;> simp only [TurnCompressor.step, hp, hp', hkey]
    · exact .some ⟨hs.put h, hc.goto .delCache⟩
    · exact .some ⟨hs, hc.goto .finished⟩
    · exact .none
  | delCache =>
    cases hreply <;> simp only [TurnCompressor.step, hp, hp', hkey]
    · exact .some ⟨hs.delCache _, hc.goto .finished⟩
    · exact .some ⟨hs, hc.goto .finished⟩
    · exact .none
  | finished => cases hreply <;> simp only [TurnCompressor.step, hp, hp'] <;> exact .none

theorem RecordReader.Alike.goto {r r' : RecordReader} (h : r.Alike A r') {pc pc' : ReaderPc}
    (hpc : ReaderPc.Alike (SeenAs A r.key.owner) pc pc') : (r.goto pc).Alike A (r'.goto pc') :=
  ⟨h.key, hpc⟩

theorem recordReader_alike {r r' : RecordReader} (hs : StoreAlike A s s') (hr : r.Alike A r')
    (hreply : ReplyAlike A r.key.owner reply reply') :
    Option.Rel (fun m m' => StoreAlike A m.1 m'.1 ∧ m.2.Alike A m'.2) (r.step s reply)
      (r'.step s' reply') := by
  have hkey := hr.key
  have hpc := hr.pc
  generalize hp : r.pc = pc at hpc
  generalize hp' : r'.pc = pc' at hpc
  cases hpc with
  | readCache =>
    cases hreply <;> simp only [RecordReader.step, hp, hp', hkey]
    · have hrel := hs.cached r.key.conversation
      generalize s.cached r.key.conversation = e at hrel
      generalize s'.cached r.key.conversation = e' at hrel
      cases hrel with
      | none => exact .some ⟨hs, hr.goto .get⟩
      | some he => exact .some ⟨hs, hr.goto .finished⟩
    · exact .some ⟨hs, hr.goto .get⟩
    · exact .none
  | get =>
    cases hreply <;> simp only [RecordReader.step, hp, hp', hkey]
    · have hrel := hs.stored r.key
      generalize s.stored r.key = e at hrel
      generalize s'.stored r.key = e' at hrel
      cases hrel with
      | none => exact .some ⟨hs, hr.goto .finished⟩
      | some h => exact .some ⟨hs, hr.goto (.setCache h)⟩
    · exact .some ⟨hs, hr.goto .finished⟩
    · exact .none
  | setCache h =>
    cases hreply <;> simp only [RecordReader.step, hp, hp', hkey]
    · exact .some ⟨hs.setCache h, hr.goto .finished⟩
    · exact .some ⟨hs, hr.goto .finished⟩
    · exact .none
  | finished => cases hreply <;> simp only [RecordReader.step, hp, hp'] <;> exact .none

/-- What a loader of another owner is given is the same. -/
theorem recordReader_loaded {r r' : RecordReader} (hs : StoreAlike A s s') (hr : r.Alike A r')
    (hreply : ReplyAlike A r.key.owner reply reply') (hown : (RecordTask.read r).OwnHit A s reply) :
    Option.Rel (SeenAs A r.key.owner) (r.loaded s reply) (r'.loaded s' reply') := by
  have hkey := hr.key
  have hpc := hr.pc
  generalize hp : r.pc = pc at hpc
  generalize hp' : r'.pc = pc' at hpc
  cases hpc with
  | readCache =>
    cases hreply with
    | ok =>
      simp only [RecordReader.loaded, hp, hp', hkey]
      have hrel := hs.cached r.key.conversation
      simp only [RecordTask.OwnHit, hp] at hown
      generalize s.cached r.key.conversation = e at hrel hown
      generalize s'.cached r.key.conversation = e' at hrel
      cases hrel with
      | none => exact .none
      | @some e e' he =>
        obtain ⟨owner, record⟩ := e
        refine .some ⟨he.2.alike, fun hne => he.2.same ?_⟩
        rintro rfl
        exact hne (hown record rfl)
    | error =>
      simp only [RecordReader.loaded, hp, hp']
      exact .none
    | content hempty hsame =>
      simp only [RecordReader.loaded, hp, hp']
      exact .none
  | get =>
    cases hreply <;> simp only [RecordReader.loaded, hp, hp', hkey]
    · exact hs.stored r.key
    · exact .none
    · exact .none
  | setCache h => cases hreply <;> simp only [RecordReader.loaded, hp, hp'] <;> exact .none
  | finished => cases hreply <;> simp only [RecordReader.loaded, hp, hp'] <;> exact .none

theorem RecordTask.Alike.key {t t' : RecordTask} (h : t.Alike A t') : t'.key = t.key := by
  cases h with
  | write h => exact h.key_eq
  | compress h => exact h.key
  | read h => exact h.key

theorem recordTask_alike (model : String) {t t' : RecordTask} (hs : StoreAlike A s s') (ht : t.Alike A t')
    (hreply : ReplyAlike A t.key.owner reply reply') (hown : t.OwnHit A s reply) :
    Option.Rel (StepAlike A (RecordTask.Alike A) (RecordTask.Alike A)) (t.step s model reply)
      (t'.step s' model reply') := by
  cases ht with
  | @write a a' ha =>
    have hrel := turnWriter_alike model hs ha hreply
    simp only [RecordTask.step]
    generalize a.step s model reply = m at hrel
    generalize a'.step s' model reply' = m' at hrel
    cases hrel with
    | none => exact .none
    | some h =>
      refine .some ⟨h.1, .write h.2.1, ?_⟩
      rw [List.forall₂_map_left_iff, List.forall₂_map_right_iff]
      exact h.2.2.imp fun _ _ hc => .compress hc
  | @compress c c' hc =>
    have hrel := turnCompressor_alike hs hc hreply hown
    simp only [RecordTask.step]
    generalize c.step s reply = m at hrel
    generalize c'.step s' reply' = m' at hrel
    cases hrel with
    | none => exact .none
    | some h => exact .some ⟨h.1, .compress h.2, .nil⟩
  | @read r r' hr =>
    have hrel := recordReader_alike hs hr hreply
    simp only [RecordTask.step]
    generalize r.step s reply = m at hrel
    generalize r'.step s' reply' = m' at hrel
    cases hrel with
    | none => exact .none
    | some h => exact .some ⟨h.1, .read h.2, .nil⟩

theorem recordTask_loaded {t t' : RecordTask} (hs : StoreAlike A s s') (ht : t.Alike A t')
    (hreply : ReplyAlike A t.key.owner reply reply') (hown : t.OwnHit A s reply) :
    Option.Rel (ChatLoad.Alike A) (t.loaded s reply) (t'.loaded s' reply') := by
  cases ht with
  | write h => exact .none
  | compress h => exact .none
  | @read r r' hr =>
    have hrel := recordReader_loaded hs hr hreply hown
    simp only [RecordTask.loaded, hr.key]
    generalize r.loaded s reply = m at hrel
    generalize r'.loaded s' reply' = m' at hrel
    cases hrel with
    | none => exact .none
    | some h => exact .some ⟨rfl, h⟩

end Call

/-! ## One step -/

theorem forall₂_getElem? {α β : Type} {R : α → β → Prop} {l : List α} {l' : List β}
    (h : List.Forall₂ R l l') (k : ℕ) : Option.Rel R l[k]? l'[k]? := by
  induction h generalizing k with
  | nil => exact .none
  | cons hab _ ih =>
    cases k with
    | zero => exact .some hab
    | succ k => simpa using ih k

theorem forall₂_set {α β : Type} {R : α → β → Prop} {l : List α} {l' : List β} {a : α} {b : β}
    (h : List.Forall₂ R l l') (hab : R a b) (k : ℕ) : List.Forall₂ R (l.set k a) (l'.set k b) := by
  induction h generalizing k with
  | nil => exact .nil
  | cons hcd hrest ih =>
    cases k with
    | zero => exact .cons hab hrest
    | succ k => exact .cons hcd (ih k)

theorem forall₂_eraseIdx {α β : Type} {R : α → β → Prop} {l : List α} {l' : List β}
    (h : List.Forall₂ R l l') (k : ℕ) : List.Forall₂ R (l.eraseIdx k) (l'.eraseIdx k) := by
  induction h generalizing k with
  | nil => exact .nil
  | cons hab hrest ih =>
    cases k with
    | zero => exact hrest
    | succ k => exact .cons hab (ih k)

section Step
variable {A : Uuid}

theorem recordConfig_alike {c c' : RecordConfig} {a a' : RecordAction} (hc : c.Alike A c')
    (ha : RecordActionAlike A c a a') (hown : c.OwnHits A a) :
    Option.Rel (RecordConfig.Alike A) (c.step a) (c'.step a') ∧
      Option.Rel (ChatLoad.Alike A) (c.loaded a) (c'.loaded a') := by
  cases ha with
  | write site conversationId hjob hsame =>
    refine ⟨.some ⟨hc.store, ?_⟩, .none⟩
    exact List.rel_append hc.tasks (.cons (.write ⟨rfl, rfl, rfl, hjob, hsame, .get⟩) .nil)
  | read key today =>
    refine ⟨.some ⟨hc.store, List.rel_append hc.tasks (.cons (.read ⟨rfl, ?_⟩) .nil)⟩, .none⟩
    cases today with
    | true => exact .readCache
    | false => exact .get
  | @run k model reply reply' hreply =>
    have htasks := forall₂_getElem? hc.tasks k
    simp only [RecordConfig.step, RecordConfig.loaded]
    cases ht : c.tasks[k]? with
    | none =>
      rw [ht] at htasks
      generalize c'.tasks[k]? = u at htasks
      cases htasks
      exact ⟨.none, .none⟩
    | some t =>
      rw [ht] at htasks
      generalize c'.tasks[k]? = u at htasks
      cases htasks with
      | @some _ t' htt' =>
        have hloaded := recordTask_loaded hc.store htt' (hreply t ht) (hown t ht)
        have hstep := recordTask_alike model hc.store htt' (hreply t ht) (hown t ht)
        refine ⟨?_, hloaded⟩
        simp only [Option.bind_eq_bind, Option.bind_some]
        generalize t.step c.store model reply = m at hstep
        generalize t'.step c'.store model reply' = m' at hstep
        cases hstep with
        | none => exact .none
        | some h => exact .some ⟨h.1, List.rel_append (forall₂_set hc.tasks h.2.1 k) h.2.2⟩
  | expire conversation => exact ⟨.some ⟨hc.store.delCache conversation, hc.tasks⟩, .none⟩

/-- The record a handoff stores. -/
theorem conversationContext_record {env : LoadEnv} {conversation newId : Uuid}
    {record newRecord : ConversationRecord} {messages : List Json}
    (h : conversationContext env conversation record = some (messages, newId, some newRecord)) :
    ∃ turn : HandoffTurn, newRecord = [.handoff turn] := by
  simp only [conversationContext] at h
  split at h
  · cases h
  · split at h
    · split at h
      · next hoff =>
        simp only [Option.some.injEq, Prod.mk.injEq] at h
        obtain ⟨turn, hrecord, -⟩ := performHandoff_record hoff
        exact ⟨turn, h.2.2 ▸ hrecord⟩
      · simp at h
    · simp at h

theorem chatLoad_stores {s s' : RecordStore} {l l' : ChatLoad} {env env' : LoadEnv}
    (hs : StoreAlike A s s') (hl : l.Alike A l')
    (hsame : l.key.owner ≠ A → env' = env) (hcourse : l'.course env' = l.course env) :
    StoreAlike A (l.stores env s) (l'.stores env' s') := by
  simp only [ChatLoad.course, ChatLoad.stores, hl.key] at hcourse ⊢
  cases hctx : conversationContext env l.key.conversation l.record with
  | none =>
    rw [hctx] at hcourse
    rw [Option.map_eq_none_iff.mp hcourse]
    exact hs
  | some p =>
    obtain ⟨messages, newId, stored⟩ := p
    rw [hctx] at hcourse
    obtain ⟨⟨messages', newId', stored'⟩, hctx', hp⟩ := Option.map_eq_some_iff.mp hcourse
    obtain ⟨rfl, hisSome⟩ := Prod.mk.inj hp
    rw [hctx']
    cases stored with
    | none =>
      cases stored' with
      | none => exact hs
      | some newRecord' => cases hisSome
    | some newRecord =>
      cases stored' with
      | none => cases hisSome
      | some newRecord' =>
        obtain ⟨turn, hrecord⟩ := conversationContext_record hctx
        obtain ⟨turn', hrecord'⟩ := conversationContext_record hctx'
        refine hs.put ⟨?_, fun hne => ?_⟩
        · rw [hrecord, hrecord']
          exact .cons (.handoff turn turn') .nil
        · rw [hsame hne, hl.record.same hne, hctx] at hctx'
          exact (Option.some.inj (Prod.mk.inj (Prod.mk.inj (Option.some.inj hctx')).2).2).symm

theorem chatState_alike {c c' : ChatState} {a a' : ChatAction} (hc : c.Alike A c')
    (ha : ChatActionAlike A c c' a a') (hown : c.OwnHits A a) :
    Option.Rel (ChatState.Alike A) (c.step a) (c'.step a') := by
  cases ha with
  | @record a a' ha =>
    obtain ⟨hstep, hloaded⟩ := recordConfig_alike hc.records ha hown
    have hloads : List.Forall₂ (ChatLoad.Alike A) (c.records.loaded a).toList
        (c'.records.loaded a').toList := by
      generalize c.records.loaded a = l at hloaded
      generalize c'.records.loaded a' = l' at hloaded
      cases hloaded with
      | none => exact .nil
      | some h => exact .cons h .nil
    simp only [ChatState.step]
    generalize c.records.step a = d at hstep
    generalize c'.records.step a' = d' at hstep
    cases hstep with
    | none => exact .none
    | some h => exact .some ⟨h, List.rel_append hc.loads hloads, hc.given⟩
  | answer k hsame hcourse =>
    have hget := forall₂_getElem? hc.loads k
    simp only [ChatState.step]
    cases hl : c.loads[k]? with
    | none =>
      rw [hl] at hget
      generalize c'.loads[k]? = u at hget
      cases hget
      exact .none
    | some l =>
      rw [hl] at hget
      cases hl' : c'.loads[k]? with
      | none =>
        rw [hl'] at hget
        cases hget
      | some l' =>
        rw [hl'] at hget
        have hll' : l.Alike A l' := by
          cases hget with
          | some h => exact h
        have hstore := chatLoad_stores hc.records.store hll' (fun hne => (hsame l hl hne).2.1)
          (hcourse l l' hl hl')
        refine .some ⟨⟨hstore, hc.records.tasks⟩, forall₂_eraseIdx hc.loads k, fun B hB => ?_⟩
        have hgiven := hc.given B hB
        by_cases howner : l.key.owner = B
        · have hne : l.key.owner ≠ A := howner ▸ hB
          obtain ⟨rfl, rfl, rfl⟩ := hsame l hl hne
          simp only [ChatState.givenTo, List.filter_append, List.map_append] at hgiven ⊢
          rw [hgiven, hll'.key, hll'.record.same hne]
        · simp only [ChatState.givenTo, List.filter_append, List.map_append] at hgiven ⊢
          rw [hgiven, hll'.key]
          simp [howner]

end Step

/-! ## Runs -/

namespace ChatState

/-- Two runs that differ only in what the turns of `A` say give every other owner the same. -/
theorem given_same {A B : Uuid} (hB : B ≠ A)
    {stored stored' : RecordKey → Option ConversationRecord} {as as' : List ChatAction}
    (hstored : ∀ key, Option.Rel (SeenAs A key.owner) (stored key) (stored' key))
    (hpaired : Paired step (ChatActionAlike A) (init stored) (init stored') as as')
    (hown : EachStep step (fun c a _ => c.OwnHits A a) (init stored) as) {c : ChatState}
    (hrun : exec step (fun _ _ => true) (init stored) as = some c) :
    ∃ c', exec step (fun _ _ => true) (init stored') as' = some c' ∧
      c'.givenTo B = c.givenTo B := by
  have hinit : ChatState.Alike A (init stored) (init stored') :=
    ⟨⟨⟨hstored, fun _ => .none⟩, .nil⟩, .nil, fun _ _ => rfl⟩
  have hstep : ∀ s s' a a' t, ChatState.Alike A s s' → ChatActionAlike A s s' a a' →
      step s a = some t → s.OwnHits A a → ∃ t', step s' a' = some t' ∧ ChatState.Alike A t t' := by
    intro s s' a a' t hs ha ht hhits
    have hrel := chatState_alike hs ha hhits
    rw [ht] at hrel
    generalize step s' a' = u at hrel
    cases hrel with
    | some h => exact ⟨_, rfl, h⟩
  obtain ⟨c', hrun', hc⟩ := exec_paired hstep hinit hpaired hown hrun
  exact ⟨c', hrun', hc.given B hB⟩

/-! ## Two runs -/

/-- Calls that are alike whatever the state is, and what comes after them. -/
theorem paired_records {A : Uuid} {as as' : List RecordAction} {bs bs' : List ChatAction}
    (h : List.Forall₂ (fun a a' => ∀ d, RecordActionAlike A d a a') as as') {c c' : ChatState}
    (hrest : ∀ d d', exec step (fun _ _ => true) c (as.map .record) = some d →
      exec step (fun _ _ => true) c' (as'.map .record) = some d' →
        Paired step (ChatActionAlike A) d d' bs bs') :
    Paired step (ChatActionAlike A) c c' (as.map .record ++ bs) (as'.map .record ++ bs') := by
  induction h generalizing c c' with
  | nil => exact hrest c c' rfl rfl
  | cons ha _ ih =>
    refine ⟨.record (ha _), fun d d' hd hd' => ih fun e e' he he' => hrest e e' ?_ ?_⟩
    · simp only [List.map_cons, exec, if_true, hd, Option.bind_some, he]
    · simp only [List.map_cons, exec, if_true, hd', Option.bind_some, he']

/-- A turn of owner 1 in conversation 5, and a request of owner 2 with that id. -/
def cachedRun (prompt : String) : List RecordAction :=
  [.write .finalize 1 (some 5) (askedTurn 0 prompt), .run 0 "q" .ok, .run 0 "q" .ok, .run 0 "q" .ok,
    .read ⟨2, 5⟩ true, .run 1 "q" .ok]

def firstContent (given : List (Option (List Json))) : Option String :=
  given.head?.join.bind fun messages => messages.head?.bind contentOf

theorem cached_turn_given : ¬ ∀ (A B : Uuid), B ≠ A →
    ∀ (stored stored' : RecordKey → Option ConversationRecord) (as as' : List ChatAction),
      (∀ key, Option.Rel (SeenAs A key.owner) (stored key) (stored' key)) →
      Paired step (ChatActionAlike A) (init stored) (init stored') as as' →
        ∀ c, exec step (fun _ _ => true) (init stored) as = some c →
          ∃ c', exec step (fun _ _ => true) (init stored') as' = some c' ∧
            c'.givenTo B = c.givenTo B := by
  intro hall
  let answer : List ChatAction := [.answer 0 .openai shipEnv []]
  have hpaired : Paired step (ChatActionAlike 1) (init fun _ => none) (init fun _ => none)
      ((cachedRun "alpha").map .record ++ answer) ((cachedRun "beta").map .record ++ answer) := by
    refine paired_records ?_ fun d d' hd hd' => ?_
    · exact .cons (fun _ => .write _ _ rfl fun h => absurd rfl h) (.cons (fun _ => .run _ _ fun _ _ => .ok)
        (.cons (fun _ => .run _ _ fun _ _ => .ok) (.cons (fun _ => .run _ _ fun _ _ => .ok)
          (.cons (fun _ => .read _ _) (.cons (fun _ => .run _ _ fun _ _ => .ok) .nil)))))
    · obtain rfl := Option.some.inj hd
      obtain rfl := Option.some.inj hd'
      refine ⟨.answer 0 (fun _ _ _ => ⟨rfl, rfl, rfl⟩) fun l l' hl hl' => ?_, fun _ _ _ _ => trivial⟩
      obtain rfl := Option.some.inj hl
      obtain rfl := Option.some.inj hl'
      rfl
  have hruns : (exec step (fun _ _ => true) (init fun _ => none)
        ((cachedRun "alpha").map .record ++ answer)).any (fun c =>
          firstContent (c.givenTo 2) = some "alpha") = true ∧
      (exec step (fun _ _ => true) (init fun _ => none)
        ((cachedRun "beta").map .record ++ answer)).any (fun c =>
          firstContent (c.givenTo 2) = some "beta") = true := by decide +kernel
  obtain ⟨c, hc, halpha⟩ := (Option.any_eq_true ..).mp hruns.1
  obtain ⟨c', hc', hbeta⟩ := (Option.any_eq_true ..).mp hruns.2
  obtain ⟨d, hd, hgiven⟩ := hall 1 2 (by decide) _ _ _ _ (fun _ => .none) hpaired c hc
  obtain rfl := Option.some.inj (hc'.symm.trans hd)
  have hsame : firstContent (c'.givenTo 2) = firstContent (c.givenTo 2) := by rw [hgiven]
  rw [of_decide_eq_true halpha, of_decide_eq_true hbeta] at hsame
  exact absurd hsame (by decide)

/-- A turn of owner 1 in conversation 5, and a request of owner 2 in its own conversation 6. -/
def ownRun (prompt : String) : List RecordAction :=
  [.write .finalize 1 (some 5) (askedTurn 0 prompt), .read ⟨2, 6⟩ true, .run 1 "q" .ok, .run 1 "q" .ok]

def ownStored (key : RecordKey) : Option ConversationRecord :=
  if key = ⟨2, 6⟩ then some [.regular (askedTurn 3 "gamma") none] else none

theorem own_turn_given : ∃ c c', exec step (fun _ _ => true) (init ownStored)
      ((ownRun "alpha").map .record ++ [.answer 0 .openai shipEnv []]) = some c ∧
    exec step (fun _ _ => true) (init ownStored)
      ((ownRun "beta").map .record ++ [.answer 0 .openai shipEnv []]) = some c' ∧
    firstContent (c.givenTo 2) = some "gamma" ∧ c'.givenTo 2 = c.givenTo 2 := by
  have hpaired : Paired step (ChatActionAlike 1) (init ownStored) (init ownStored)
      ((ownRun "alpha").map .record ++ [.answer 0 .openai shipEnv []])
      ((ownRun "beta").map .record ++ [.answer 0 .openai shipEnv []]) := by
    refine paired_records ?_ fun d d' hd hd' => ?_
    · exact .cons (fun _ => .write _ _ rfl fun h => absurd rfl h) (.cons (fun _ => .read _ _)
        (.cons (fun _ => .run _ _ fun _ _ => .ok) (.cons (fun _ => .run _ _ fun _ _ => .ok) .nil)))
    · obtain rfl := Option.some.inj hd
      obtain rfl := Option.some.inj hd'
      refine ⟨.answer 0 (fun _ _ _ => ⟨rfl, rfl, rfl⟩) fun l l' hl hl' => ?_, fun _ _ _ _ => trivial⟩
      obtain rfl := Option.some.inj hl
      obtain rfl := Option.some.inj hl'
      rfl
  have hstored : ∀ key, Option.Rel (SeenAs 1 key.owner) (ownStored key) (ownStored key) := by
    intro key
    cases ownStored key with
    | none => exact .none
    | some record => exact .some (.refl _ _)
  have hown : EachStep step (fun c a _ => c.OwnHits 1 a) (init ownStored)
      ((ownRun "alpha").map .record ++ [.answer 0 .openai shipEnv []]) := by
    refine fun c₁ h₁ => ⟨trivial, fun c₂ h₂ => ⟨trivial, fun c₃ h₃ => ⟨?_, fun c₄ h₄ => ⟨?_,
      fun c₅ h₅ => ⟨trivial, trivial⟩⟩⟩⟩⟩
    · obtain rfl := Option.some.inj h₁
      obtain rfl := Option.some.inj h₂
      intro t ht
      obtain rfl := Option.some.inj ht
      intro record hcached
      cases hcached
    · obtain rfl := Option.some.inj h₁
      obtain rfl := Option.some.inj h₂
      obtain rfl := Option.some.inj h₃
      intro t ht
      obtain rfl := Option.some.inj ht
      trivial
  have hrun : (exec step (fun _ _ => true) (init ownStored)
      ((ownRun "alpha").map .record ++ [.answer 0 .openai shipEnv []])).any (fun c =>
        firstContent (c.givenTo 2) = some "gamma") = true := by decide +kernel
  obtain ⟨c, hc, hgamma⟩ := (Option.any_eq_true ..).mp hrun
  obtain ⟨c', hc', hgiven⟩ := given_same (show (2 : Uuid) ≠ 1 by decide) hstored hpaired hown hc
  exact ⟨c, c', hc, hc', of_decide_eq_true hgamma, hgiven⟩

end ChatState

end Veronex
