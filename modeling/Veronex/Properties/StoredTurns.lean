import Veronex.Conversation.Record
import Veronex.Foundation.Transition
import Veronex.Inference.Cluster

/-! # Stored turns

Every writer reads a record, changes it and writes it back whole. What it read is an earlier state of
the record (`RecordStore.Earlier`): a prefix of its turns, up to their compressions.

`stored_turns_kept`: where no writer writes back a record that has fewer turns than the stored one,
no turn that was stored disappears.
-/
namespace Veronex
open Concurrency
set_option autoImplicit false

namespace RecordStore

/-- The record is an earlier state of what is stored under the key. -/
def Earlier (s : RecordStore) (key : RecordKey) (record : ConversationRecord) : Prop :=
  rawTurns record <+: rawTurns (s.turns key)

/-- No record has lost a turn. -/
def Grows (s s' : RecordStore) : Prop := ∀ key, s'.Earlier key (s.turns key)

/-- The cached records are earlier states of the stored ones. -/
def CachesEarlier (s : RecordStore) : Prop :=
  ∀ conversation owner record, s.cached conversation = some (owner, record) →
    s.Earlier ⟨owner, conversation⟩ record

/-- What a task does to the store. -/
inductive Moved (s : RecordStore) : RecordStore → Prop
  | same : Moved s s
  | put {key : RecordKey} {record : ConversationRecord}
      (h : rawTurns (s.turns key) <+: rawTurns record) : Moved s (s.put key record)
  | setCache {key : RecordKey} {record : ConversationRecord} (h : s.Earlier key record) :
      Moved s (s.setCache key record)
  | delCache (conversation : Uuid) : Moved s (s.delCache conversation)

variable {s s' s'' : RecordStore} {key : RecordKey} {record : ConversationRecord}

theorem Grows.refl (s : RecordStore) : s.Grows s := fun _ => List.prefix_rfl

theorem Grows.trans (h : s.Grows s') (h' : s'.Grows s'') : s.Grows s'' :=
  fun key => (h key).trans (h' key)

theorem Earlier.mono (h : s.Earlier key record) (hgrows : s.Grows s') : s'.Earlier key record :=
  h.trans (hgrows key)

theorem Earlier.of_stored (h : s.stored key = some record) : s.Earlier key record := by
  rw [Earlier, turns, h, Option.getD_some]

theorem Moved.grows (h : s.Moved s') : s.Grows s' := by
  intro key
  cases h with
  | @put key' record h =>
    by_cases hkey : key = key'
    · subst hkey
      rw [Earlier, turns_put_self]
      exact h
    · rw [Earlier, turns_put_of_ne _ _ hkey]
  | _ => exact List.prefix_rfl

theorem Moved.caches (h : s.Moved s') (hcached : s.CachesEarlier) : s'.CachesEarlier := by
  have hgrows := h.grows
  intro conversation owner record hr
  cases h with
  | same => exact hcached conversation owner record hr
  | put _ => exact (hcached conversation owner record hr).mono hgrows
  | @setCache key record' h =>
    by_cases hconversation : conversation = key.conversation
    · subst hconversation
      simp only [RecordStore.setCache, Function.update_self, Option.some.injEq, Prod.mk.injEq] at hr
      obtain ⟨rfl, rfl⟩ := hr
      exact h
    · refine hcached conversation owner record ?_
      simpa only [RecordStore.setCache, Function.update_of_ne hconversation] using hr
  | delCache conversation' =>
    by_cases hconversation : conversation = conversation'
    · subst hconversation
      simp [RecordStore.delCache] at hr
    · refine hcached conversation owner record ?_
      simpa only [RecordStore.delCache, Function.update_of_ne hconversation] using hr

/-- A record with as many turns as the stored one, and earlier than it, has all its turns. -/
theorem Earlier.current (h : s.Earlier key record)
    (hlength : record.length = (s.turns key).length) : rawTurns record = rawTurns (s.turns key) :=
  List.IsPrefix.eq_of_length h (by rw [length_rawTurns, length_rawTurns, hlength])

/-- A writer that puts an earlier record with one more turn keeps what is stored exactly if its
record is current, or the turn is the only one that was added and is added again. -/
theorem put_keeps_iff (h : s.Earlier key record) (turn : ConversationTurn) :
    (s.put key (record ++ [turn])).Earlier key (s.turns key) ↔
      record.length = (s.turns key).length ∨
        rawTurns (s.turns key) = rawTurns (record ++ [turn]) := by
  rw [Earlier, turns_put_self]
  constructor
  · intro hkept
    have hle := hkept.length_le
    have hge := List.IsPrefix.length_le h
    rw [length_rawTurns, length_rawTurns, List.length_append, List.length_singleton] at hle
    rw [length_rawTurns, length_rawTurns] at hge
    by_cases hlength : record.length = (s.turns key).length
    · exact .inl hlength
    · refine .inr (hkept.eq_of_length ?_)
      rw [length_rawTurns, length_rawTurns, List.length_append, List.length_singleton]
      omega
  · rintro (hlength | hagain)
    · rw [rawTurns_append, h.current hlength]
      exact List.prefix_append ..
    · rw [hagain]

end RecordStore

/-! ## Tasks -/

/-- The record a task has in its hands, and the key it is for. -/
def RecordTask.holds : RecordTask → Option (RecordKey × ConversationRecord)
  | .write a => match a.pc with
    | .put record | .setCache record => some (a.key, record)
    | _ => none
  | .compress c => match c.pc with
    | .summarize record | .put record => some (c.key, record)
    | _ => none
  | .read r => match r.pc with
    | .setCache record => some (r.key, record)
    | _ => none

/-- What a successful call of a task must find: a put as many turns as its record was read with, and
a compression that takes the cached record the one of its own key. -/
def RecordTask.Current (s : RecordStore) (reply : Reply) : RecordTask → Prop
  | .write a => match a.pc, reply with
    | .put record, .ok => record.length = (s.turns a.key).length
    | _, _ => True
  | .compress c => match c.pc, reply with
    | .readCache, .ok => ∀ owner record, s.cached c.key.conversation = some (owner, record) →
        (findTurn c.jobId record).isSome → owner = c.key.owner
    | .put record, .ok => record.length = (s.turns c.key).length
    | _, _ => True
  | .read _ => True

/-- What a task does: the store moves on, and what the task has in its hands stays earlier. -/
structure RecordMoved (s s' : RecordStore) (t' : RecordTask) (new : List RecordTask) : Prop where
  store : s.Moved s'
  holds : ∀ key record, t'.holds = some (key, record) → s'.Earlier key record
  new : ∀ u ∈ new, u.holds = none

section Tasks
variable {s s' : RecordStore} {reply : Reply}

/-- A task that starts no other and has no record in its hands afterwards. -/
theorem RecordMoved.quiet {t' : RecordTask} (ht : t'.holds = none) (h : s.Moved s') :
    RecordMoved s s' t' [] where
  store := h
  holds key record hr := by
    rw [ht] at hr
    cases hr
  new _ hu := absurd hu List.not_mem_nil

/-- A task that starts no other and has this record in its hands afterwards. -/
theorem RecordMoved.holding {t' : RecordTask} (h : s.Moved s')
    (ht : ∀ key record, t'.holds = some (key, record) → s'.Earlier key record) :
    RecordMoved s s' t' [] where
  store := h
  holds := ht
  new _ hu := absurd hu List.not_mem_nil

theorem turnWriter_moved {a a' : TurnWriter} {model : String} {new : List TurnCompressor}
    (hheld : ∀ key record, (RecordTask.write a).holds = some (key, record) → s.Earlier key record)
    (hcurrent : (RecordTask.write a).Current s reply) (h : a.step s model reply = some (s', a', new)) :
    RecordMoved s s' (.write a') (new.map .compress) := by
  obtain ⟨site, owner, conversationId, turn, pc⟩ := a
  cases pc with
  | get =>
    cases reply with
    | ok =>
      obtain ⟨rfl, rfl, rfl⟩ := h
      refine .holding .same fun key record hr => ?_
      obtain ⟨rfl, rfl⟩ := hr
      exact List.prefix_rfl
    | error =>
      obtain ⟨rfl, rfl, rfl⟩ := h
      refine .holding .same fun key record hr => ?_
      obtain ⟨rfl, rfl⟩ := hr
      exact List.nil_prefix
    | content text => cases h
  | put record =>
    cases reply with
    | ok =>
      obtain ⟨rfl, rfl, rfl⟩ := h
      refine .holding (.put ?_) fun key record' hr => ?_
      · have hkept := (RecordStore.put_keeps_iff (hheld _ _ rfl) (.regular turn none)).mpr
          (.inl hcurrent)
        rwa [RecordStore.Earlier, RecordStore.turns_put_self] at hkept
      · have hput : record' = record ++ [.regular turn none] ∧
            key = { owner, conversation := conversationId.getD turn.jobId } := by
          cases site <;> cases conversationId <;> (cases hr; try exact ⟨rfl, rfl⟩)
        obtain ⟨rfl, rfl⟩ := hput
        rw [RecordStore.Earlier, TurnWriter.key, RecordStore.turns_put_self]
    | error =>
      obtain ⟨rfl, rfl, rfl⟩ := h
      exact .quiet rfl .same
    | content text => cases h
  | setCache record =>
    cases reply with
    | ok =>
      obtain ⟨rfl, rfl, rfl⟩ := h
      exact .quiet rfl (.setCache (hheld _ _ rfl))
    | error =>
      obtain ⟨rfl, rfl, rfl⟩ := h
      exact .quiet rfl .same
    | content text => cases h
  | spawn =>
    cases reply with
    | ok =>
      obtain ⟨rfl, rfl, rfl⟩ := h
      refine ⟨.same, fun key record hr => (by cases hr), fun u hu => ?_⟩
      obtain rfl := List.mem_singleton.mp hu
      rfl
    | error =>
      obtain ⟨rfl, rfl, rfl⟩ := h
      exact .quiet rfl .same
    | content text => cases h
  | delCache =>
    cases reply with
    | ok =>
      obtain ⟨rfl, rfl, rfl⟩ := h
      exact .quiet rfl (.delCache _)
    | error =>
      obtain ⟨rfl, rfl, rfl⟩ := h
      exact .quiet rfl .same
    | content text => cases h
  | finished => cases h

/-- A compression works on the record it has found. -/
theorem holds_found {c : TurnCompressor} {record record' : ConversationRecord} {key : RecordKey}
    (h : (RecordTask.compress (c.found record)).holds = some (key, record')) :
    key = c.key ∧ record' = record ∧ (findTurn c.jobId record).isSome := by
  unfold TurnCompressor.found at h
  split at h
  · next turn hfind =>
    obtain ⟨rfl, rfl⟩ := h
    exact ⟨rfl, rfl, by rw [hfind]; rfl⟩
  · cases h

theorem holds_compressed {c : TurnCompressor} {record record' : ConversationRecord} {key : RecordKey}
    {text : String} (h : (RecordTask.compress (c.compressed record text)).holds = some (key, record')) :
    key = c.key ∧ rawTurns record' = rawTurns record := by
  unfold TurnCompressor.compressed at h
  split at h
  · cases h
  · dsimp only at h
    split at h
    · cases h
    · obtain ⟨rfl, rfl⟩ := h
      exact ⟨rfl, rawTurns_setCompressed _ _ _⟩

theorem turnCompressor_moved {c c' : TurnCompressor} (hcached : s.CachesEarlier)
    (hheld : ∀ key record, (RecordTask.compress c).holds = some (key, record) → s.Earlier key record)
    (hcurrent : (RecordTask.compress c).Current s reply) (h : c.step s reply = some (s', c')) :
    RecordMoved s s' (.compress c') [] := by
  obtain ⟨ckey, jobId, model, pc⟩ := c
  cases pc with
  | readCache =>
    cases reply with
    | ok =>
      simp only [TurnCompressor.step] at h
      split at h
      · next owner record hrecord =>
        obtain ⟨rfl, rfl⟩ := h
        refine .holding .same fun key record' hr => ?_
        obtain ⟨rfl, rfl, hfind⟩ := holds_found hr
        obtain rfl := hcurrent owner record' hrecord hfind
        exact hcached _ _ _ hrecord
      · obtain ⟨rfl, rfl⟩ := h
        exact .quiet rfl .same
    | error =>
      obtain ⟨rfl, rfl⟩ := h
      exact .quiet rfl .same
    | content text => cases h
  | get =>
    cases reply with
    | ok =>
      simp only [TurnCompressor.step] at h
      split at h
      · next record hrecord =>
        obtain ⟨rfl, rfl⟩ := h
        refine .holding .same fun key record' hr => ?_
        obtain ⟨rfl, rfl, -⟩ := holds_found hr
        exact RecordStore.Earlier.of_stored hrecord
      · obtain ⟨rfl, rfl⟩ := h
        exact .quiet rfl .same
    | error =>
      obtain ⟨rfl, rfl⟩ := h
      exact .quiet rfl .same
    | content text => cases h
  | summarize record =>
    cases reply with
    | ok => cases h
    | error =>
      obtain ⟨rfl, rfl⟩ := h
      exact .quiet rfl .same
    | content text =>
      obtain ⟨rfl, rfl⟩ := h
      refine .holding .same fun key record' hr => ?_
      obtain ⟨rfl, hraw⟩ := holds_compressed hr
      have hearlier := hheld _ _ rfl
      rwa [RecordStore.Earlier, ← hraw] at hearlier
  | put record =>
    cases reply with
    | ok =>
      obtain ⟨rfl, rfl⟩ := h
      have hsame := (hheld _ _ rfl).current hcurrent
      refine .quiet rfl (.put ?_)
      rw [hsame]
    | error =>
      obtain ⟨rfl, rfl⟩ := h
      exact .quiet rfl .same
    | content text => cases h
  | delCache =>
    cases reply with
    | ok =>
      obtain ⟨rfl, rfl⟩ := h
      exact .quiet rfl (.delCache _)
    | error =>
      obtain ⟨rfl, rfl⟩ := h
      exact .quiet rfl .same
    | content text => cases h
  | finished => cases h

theorem recordReader_moved {r r' : RecordReader}
    (hheld : ∀ key record, (RecordTask.read r).holds = some (key, record) → s.Earlier key record)
    (h : r.step s reply = some (s', r')) : RecordMoved s s' (.read r') [] := by
  obtain ⟨rkey, pc⟩ := r
  cases pc with
  | readCache =>
    cases reply with
    | ok =>
      obtain ⟨rfl, rfl⟩ := h
      refine .quiet ?_ .same
      by_cases hhit : (s.cached rkey.conversation).isSome
      · simp [RecordTask.holds, RecordReader.goto, hhit]
      · simp [RecordTask.holds, RecordReader.goto, hhit]
    | error =>
      obtain ⟨rfl, rfl⟩ := h
      exact .quiet rfl .same
    | content text => cases h
  | get =>
    cases reply with
    | ok =>
      simp only [RecordReader.step] at h
      split at h
      · next record hrecord =>
        obtain ⟨rfl, rfl⟩ := h
        refine .holding .same fun key record' hr => ?_
        obtain ⟨rfl, rfl⟩ := hr
        exact RecordStore.Earlier.of_stored hrecord
      · obtain ⟨rfl, rfl⟩ := h
        exact .quiet rfl .same
    | error =>
      obtain ⟨rfl, rfl⟩ := h
      exact .quiet rfl .same
    | content text => cases h
  | setCache record =>
    cases reply with
    | ok =>
      obtain ⟨rfl, rfl⟩ := h
      exact .quiet rfl (.setCache (hheld _ _ rfl))
    | error =>
      obtain ⟨rfl, rfl⟩ := h
      exact .quiet rfl .same
    | content text => cases h
  | finished => cases h

theorem recordTask_moved {t t' : RecordTask} {new : List RecordTask} {model : String}
    (hcached : s.CachesEarlier) (hheld : ∀ key record, t.holds = some (key, record) → s.Earlier key record)
    (hcurrent : t.Current s reply) (h : t.step s model reply = some (s', t', new)) :
    RecordMoved s s' t' new := by
  cases t with
  | write a =>
    obtain ⟨⟨w, a', cs⟩, hm, heq⟩ := Option.map_eq_some_iff.mp h
    obtain ⟨rfl, rfl, rfl⟩ := heq
    exact turnWriter_moved hheld hcurrent hm
  | compress c =>
    obtain ⟨⟨w, c'⟩, hm, heq⟩ := Option.map_eq_some_iff.mp h
    obtain ⟨rfl, rfl, rfl⟩ := heq
    exact turnCompressor_moved hcached hheld hcurrent hm
  | read r =>
    obtain ⟨⟨w, r'⟩, hm, heq⟩ := Option.map_eq_some_iff.mp h
    obtain ⟨rfl, rfl, rfl⟩ := heq
    exact recordReader_moved hheld hm

end Tasks

/-! ## Runs -/

/-- Every successful call finds what it must. -/
def PutsCurrent (c : RecordConfig) : RecordAction → Prop
  | .run k _ reply => ∀ t, c.tasks[k]? = some t → t.Current c.store reply
  | _ => True

/-- Everything cached or in the hands of a task is an earlier state of a stored record. -/
structure RecordConfig.Earlier (c : RecordConfig) : Prop where
  cached : c.store.CachesEarlier
  held : ∀ t ∈ c.tasks, ∀ key record, t.holds = some (key, record) → c.store.Earlier key record

theorem recordConfig_step {c c' : RecordConfig} {a : RecordAction} (hc : c.Earlier)
    (hok : PutsCurrent c a) (h : c.step a = some c') : c'.Earlier ∧ c.store.Grows c'.store := by
  have hadd : ∀ t : RecordTask, t.holds = none →
      RecordConfig.Earlier { c with tasks := c.tasks ++ [t] } := by
    intro t ht
    refine ⟨hc.cached, fun u hu key record hr => ?_⟩
    rcases List.mem_append.mp hu with hu | hu
    · exact hc.held u hu key record hr
    · obtain rfl := List.mem_singleton.mp hu
      rw [ht] at hr
      cases hr
  cases a with
  | write site owner conversationId turn =>
    obtain rfl := Option.some.inj h
    exact ⟨hadd _ rfl, .refl _⟩
  | read key today =>
    obtain rfl := Option.some.inj h
    exact ⟨hadd _ (by cases today <;> rfl), .refl _⟩
  | run k model reply =>
    obtain ⟨t, ht, h⟩ := Option.bind_eq_some_iff.mp h
    obtain ⟨⟨s', t', new⟩, hm, h⟩ := Option.bind_eq_some_iff.mp h
    obtain rfl := Option.some.inj h
    obtain ⟨others, hreplaced, -⟩ := advance_replaced ht t' new
    have hmoved := recordTask_moved hc.cached (hc.held t hreplaced.task_mem) (hok t ht) hm
    have hgrows := hmoved.store.grows
    refine ⟨⟨hmoved.store.caches hc.cached, hreplaced.forall_mem ?_ hmoved.holds ?_⟩, hgrows⟩
    · exact fun u hu key record hr =>
        (hc.held u (hreplaced.other_mem_before hu) key record hr).mono hgrows
    · intro u hu key record hr
      rw [hmoved.new u hu] at hr
      cases hr
  | expire conversation =>
    obtain rfl := Option.some.inj h
    have hmoved : c.store.Moved (c.store.delCache conversation) := .delCache conversation
    exact ⟨⟨hmoved.caches hc.cached, fun t ht key record hr =>
      (hc.held t ht key record hr).mono hmoved.grows⟩, hmoved.grows⟩

theorem earlier_reachable {stored : RecordKey → Option ConversationRecord} {c : RecordConfig}
    (h : Run RecordConfig.step PutsCurrent (.init stored) c) : c.Earlier :=
  h.invariant ⟨fun _ _ _ hr => (by cases hr), fun t ht => absurd ht List.not_mem_nil⟩
    fun _ _ _ _ hc hok hs => (recordConfig_step hc hok hs).1

/-- A turn that is stored at some point of a run is stored at every later one, perhaps compressed,
where every successful put finds as many turns as its record was read with. -/
theorem stored_turns_kept {stored : RecordKey → Option ConversationRecord} {c c' : RecordConfig}
    (h : Run RecordConfig.step PutsCurrent (.init stored) c)
    (h' : Run RecordConfig.step PutsCurrent c c') (key : RecordKey) :
    ∀ turn ∈ c.store.turns key, ∃ turn' ∈ c'.store.turns key, turn'.raw = turn.raw := by
  have hgrows : c.store.Grows c'.store := by
    refine h'.monotone (R := fun x y => x.store.Grows y.store) (fun x => .refl _)
      (fun _ _ _ hxy hyz => hxy.trans hyz) fun x y a hx hok hs => ?_
    exact (recordConfig_step (earlier_reachable (h.trans hx)) hok hs).2
  intro turn hturn
  have hraw : turn.raw ∈ rawTurns (c'.store.turns key) :=
    (hgrows key).subset (List.mem_map_of_mem hturn)
  exact List.mem_map.mp hraw

/-- Whether a call finds what it must. -/
def RecordTask.current (s : RecordStore) (reply : Reply) : RecordTask → Bool
  | .write a => match a.pc, reply with
    | .put record, .ok => record.length = (s.turns a.key).length
    | _, _ => true
  | .compress c => match c.pc, reply with
    | .readCache, .ok => (s.cached c.key.conversation).all fun r => r.1 = c.key.owner
    | .put record, .ok => record.length = (s.turns c.key).length
    | _, _ => true
  | .read _ => true

theorem current_of_test {s : RecordStore} {reply : Reply} {t : RecordTask}
    (h : t.current s reply = true) : t.Current s reply := by
  cases t with
  | write a =>
    simp only [RecordTask.Current, RecordTask.current] at h ⊢
    split
    · next record hpc => simpa [hpc] using h
    · trivial
  | compress c =>
    simp only [RecordTask.Current, RecordTask.current] at h ⊢
    split
    · next hpc =>
      intro owner record hrecord _
      simpa [hpc, hrecord] using h
    · next record hpc => simpa [hpc] using h
    · trivial
  | read r => trivial

def putsCurrent (c : RecordConfig) : RecordAction → Bool
  | .run k _ reply => (c.tasks[k]?).all (·.current c.store reply)
  | _ => true

theorem putsCurrent_of_test (c : RecordConfig) (a : RecordAction) (h : putsCurrent c a = true) :
    PutsCurrent c a := by
  cases a with
  | run k model reply =>
    intro t ht
    simp only [putsCurrent, ht, Option.all_some] at h
    exact current_of_test h
  | _ => trivial

/-- The turn of a job of the conversation. -/
def plainTurn (jobId : Uuid) : TurnRecord :=
  { jobId, prompt := "hi", messages := none, toolCalls := none, result := some "hello".toList
    modelName := some "m", createdAt := 0, visionAnalysis := none }

/-- The job of a regular turn. -/
def ConversationTurn.jobId : ConversationTurn → Option Uuid
  | .handoff _ => none
  | .regular turn _ => some turn.jobId

theorem raw_jobId (turn : ConversationTurn) : turn.raw.jobId = turn.jobId := by
  cases turn <;> rfl

/-- Whether a turn of the job is stored. -/
def storedAt (key : RecordKey) (jobId : Uuid) (c : RecordConfig) : Bool :=
  (c.store.turns key).any fun turn => turn.jobId = some jobId

/-- A turn is finalized and compressed, and then a second one is added. -/
theorem compressed_turn_kept :
    ∃ c c' : RecordConfig, Run RecordConfig.step PutsCurrent (.init fun _ => none) c ∧
      Run RecordConfig.step PutsCurrent c c' ∧ (c.store.turns ⟨1, 5⟩).length = 1 ∧
      (c'.store.turns ⟨1, 5⟩).length = 2 ∧
      ∀ turn ∈ c.store.turns ⟨1, 5⟩, ∃ turn' ∈ c'.store.turns ⟨1, 5⟩, turn'.raw = turn.raw := by
  have hexec : (exec RecordConfig.step putsCurrent (.init fun _ => none)
      [.write .finalize 1 (some 5) (plainTurn 0), .run 0 "q" .ok, .run 0 "q" .ok]).any (fun c =>
        decide ((c.store.turns ⟨1, 5⟩).length = 1) &&
          (exec RecordConfig.step putsCurrent c
            [.run 0 "q" .ok, .run 0 "q" .ok, .run 1 "q" .ok, .run 1 "q" (.content " short "),
              .run 1 "q" .ok, .run 1 "q" .ok, .write .persist 1 (some 5) (plainTurn 1),
              .run 2 "q" .ok, .run 2 "q" .ok]).any fun c' =>
            decide ((c'.store.turns ⟨1, 5⟩).length = 2)) = true := by decide +kernel
  obtain ⟨c, hrun, hc⟩ := Run.exists_of_exec putsCurrent_of_test hexec
  obtain ⟨hone, hrest⟩ := (Bool.and_eq_true _ _).mp hc
  obtain ⟨c', hrun', htwo⟩ := Run.exists_of_exec putsCurrent_of_test hrest
  exact ⟨c, c', hrun, hrun', of_decide_eq_true hone, of_decide_eq_true htwo,
    stored_turns_kept hrun hrun' ⟨1, 5⟩⟩

/-- A turn is stored, and the read before the next turn is written fails once. -/
theorem failed_read_drops_turns :
    ¬ ∀ (stored : RecordKey → Option ConversationRecord) (c c' : RecordConfig),
      Run RecordConfig.step (fun _ _ => True) (.init stored) c →
      Run RecordConfig.step (fun _ _ => True) c c' → ∀ key, ∀ turn ∈ c.store.turns key,
        ∃ turn' ∈ c'.store.turns key, turn'.raw = turn.raw := by
  intro hall
  have hexec : (exec RecordConfig.step (fun _ _ => true) (.init fun _ => none)
      [.write .finalize 1 (some 5) (plainTurn 0), .run 0 "q" .ok, .run 0 "q" .ok]).any (fun c =>
        storedAt ⟨1, 5⟩ 0 c &&
          (exec RecordConfig.step (fun _ _ => true) c
            [.write .finalize 1 (some 5) (plainTurn 1), .run 1 "q" .error, .run 1 "q" .ok]).any fun c' =>
            !storedAt ⟨1, 5⟩ 0 c') = true := by decide +kernel
  obtain ⟨c, hrun, hc⟩ :=
    @Run.exists_of_exec _ _ _ _ (fun _ _ => True) (fun _ _ _ => trivial) _ _ _ hexec
  obtain ⟨hstored, hrest⟩ := (Bool.and_eq_true _ _).mp hc
  obtain ⟨c', hrun', hgone⟩ :=
    @Run.exists_of_exec _ _ _ _ (fun _ _ => True) (fun _ _ _ => trivial) _ _ _ hrest
  obtain ⟨turn, hturn, hjob⟩ := List.any_eq_true.mp hstored
  obtain ⟨turn', hturn', hraw⟩ := hall _ c c' hrun hrun' _ turn hturn
  have hsame : turn'.jobId = turn.jobId := by rw [← raw_jobId turn', hraw, raw_jobId]
  have hthere : storedAt ⟨1, 5⟩ 0 c' = true :=
    List.any_eq_true.mpr ⟨turn', hturn', by rw [hsame]; exact hjob⟩
  rw [hthere] at hgone
  cases hgone

end Veronex
