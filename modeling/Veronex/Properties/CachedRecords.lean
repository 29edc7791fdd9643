import Veronex.Foundation.Transition
import Veronex.Properties.StoredTurns

/-! # Cached conversation records

A cached record and the stored one, while the tasks of `Conversation.Record` go on in any order. The
finalizer and the loaders end in a SET of what they hold, the bridge and the compression end in a
DEL, and the persist of a cancelled job, like any writer without a conversation id, does neither.
-/
namespace Veronex
open Concurrency
set_option autoImplicit false

/-! ## Tasks that have the cache still to write -/

namespace RecordTask

def Finished : RecordTask → Prop
  | .write a => a.pc = .finished
  | .compress c => c.pc = .finished
  | .read r => r.pc = .finished

/-- The task is at its SET or its DEL of the entry. -/
def Settles (conversation : Uuid) : RecordTask → Prop
  | .write a => a.key.conversation = conversation ∧ ((∃ record, a.pc = .setCache record) ∨ a.pc = .delCache)
  | .compress c => c.key.conversation = conversation ∧ c.pc = .delCache
  | .read r => r.key.conversation = conversation ∧ ∃ record, r.pc = .setCache record

theorem Settles.conversation {t : RecordTask} {conversation : Uuid} (h : t.Settles conversation) :
    t.key.conversation = conversation := by
  cases t with
  | write a => exact h.1
  | compress c => exact h.1
  | read r => exact h.1

theorem Settles.not_finished {t : RecordTask} {conversation : Uuid} (h : t.Settles conversation) :
    ¬ t.Finished := by
  intro hfinished
  cases t with
  | write a =>
    have hpc : a.pc = .finished := hfinished
    simp [Settles, hpc] at h
  | compress c =>
    have hpc : c.pc = .finished := hfinished
    simp [Settles, hpc] at h
  | read r =>
    have hpc : r.pc = .finished := hfinished
    simp [Settles, hpc] at h

end RecordTask

/-! ## Entries that are what is stored -/

namespace RecordStore
variable {s : RecordStore} {key : RecordKey} {record : ConversationRecord} {conversation : Uuid}

/-- What is cached for the conversation, if anything, is what is stored. -/
def Fresh (s : RecordStore) (conversation : Uuid) : Prop :=
  ∀ owner record, s.cached conversation = some (owner, record) →
    s.stored { owner, conversation } = some record

theorem fresh_put_of_ne (h : s.Fresh conversation) (hne : key.conversation ≠ conversation) :
    (s.put key record).Fresh conversation := by
  intro owner r hcached
  have hkey : ({ owner, conversation } : RecordKey) ≠ key := by
    rintro rfl
    exact hne rfl
  simpa [put, Function.update_of_ne hkey] using h owner r hcached

/-- A write under a key of which nothing is cached. -/
theorem fresh_put_of_uncached (h : s.Fresh conversation)
    (hnone : ∀ r, s.cached key.conversation ≠ some (key.owner, r)) :
    (s.put key record).Fresh conversation := by
  intro owner r hcached
  have hkey : ({ owner, conversation } : RecordKey) ≠ key := by
    rintro rfl
    exact hnone r hcached
  simpa [put, Function.update_of_ne hkey] using h owner r hcached

theorem fresh_setCache (h : key.conversation = conversation ∨ s.Fresh conversation)
    (hrecord : key.conversation = conversation → s.stored key = some record) :
    (s.setCache key record).Fresh conversation := by
  intro owner r hcached
  by_cases hconv : conversation = key.conversation
  · subst hconv
    simp only [setCache, Function.update_self, Option.some.injEq, Prod.mk.injEq] at hcached
    obtain ⟨rfl, rfl⟩ := hcached
    exact hrecord rfl
  · simp only [setCache, Function.update_of_ne hconv] at hcached
    exact (h.resolve_left (Ne.symm hconv)) owner r hcached

theorem fresh_delCache {deleted : Uuid} (h : deleted = conversation ∨ s.Fresh conversation) :
    (s.delCache deleted).Fresh conversation := by
  intro owner r hcached
  by_cases hconv : conversation = deleted
  · simp [delCache, hconv] at hcached
  · simp only [delCache, Function.update_of_ne hconv] at hcached
    exact (h.resolve_left (Ne.symm hconv)) owner r hcached

theorem fresh_of_failed {kept : Uuid} (h : kept = conversation ∨ s.Fresh conversation)
    (hkept : kept = conversation → s.Fresh kept) : s.Fresh conversation := by
  rcases h with rfl | hfresh
  · exact hkept rfl
  · exact hfresh

end RecordStore

/-! ## One call -/

/-- The call leaves no entry behind that differs from the record: a SET has the record that is
stored, a SET or a DEL that fails leaves an entry that is current, and a write that neither follows
finds no entry of its key. -/
def RecordTask.KeepsFresh (s : RecordStore) (reply : Reply) : RecordTask → Prop
  | .write a => match a.pc, reply with
    | .put _, .ok => match a.site, a.conversationId with
      | .finalize, some _ | .bridge, some _ => True
      | .finalize, none | .bridge, none | .persist, _ =>
        ∀ r, s.cached a.key.conversation ≠ some (a.key.owner, r)
    | .setCache record, .ok => s.stored a.key = some record
    | .setCache _, .error | .delCache, .error => s.Fresh a.key.conversation
    | _, _ => True
  | .compress c => match c.pc, reply with
    | .delCache, .error => s.Fresh c.key.conversation
    | _, _ => True
  | .read r => match r.pc, reply with
    | .setCache record, .ok => s.stored r.key = some record
    | .setCache _, .error => s.Fresh r.key.conversation
    | _, _ => True

section Step
variable {s s' : RecordStore} {conversation : Uuid} {reply : Reply} {model : String}

theorem turnWriter_fresh {a a' : TurnWriter} {new : List TurnCompressor}
    (hkeeps : a.key.conversation = conversation → (RecordTask.write a).KeepsFresh s reply)
    (h : s.Fresh conversation ∨ (RecordTask.write a).Settles conversation)
    (hs : a.step s model reply = some (s', a', new)) :
    s'.Fresh conversation ∨ (RecordTask.write a').Settles conversation := by
  cases hpc : a.pc with
  | get =>
    have hfresh := h.resolve_right (by simp [RecordTask.Settles, hpc])
    cases reply <;> simp only [TurnWriter.step, hpc, reduceCtorEq, Option.some.injEq, Prod.mk.injEq] at hs
    · exact .inl (hs.1 ▸ hfresh)
    · exact .inl (hs.1 ▸ hfresh)
  | put record =>
    have hfresh := h.resolve_right (by simp [RecordTask.Settles, hpc])
    cases reply with
    | ok =>
      simp only [TurnWriter.step, hpc, Option.some.injEq, Prod.mk.injEq] at hs
      obtain ⟨rfl, rfl, -⟩ := hs
      by_cases hconv : a.key.conversation = conversation
      · have hput := hkeeps hconv
        cases hsite : a.site <;> cases hid : a.conversationId <;>
          simp only [RecordTask.KeepsFresh, hpc, hsite, hid] at hput
        all_goals first
          | exact .inl (RecordStore.fresh_put_of_uncached hfresh hput)
          | exact .inr ⟨hconv, by simp [TurnWriter.goto, TurnWriter.afterPut, hsite, hid]⟩
      · exact .inl (RecordStore.fresh_put_of_ne hfresh hconv)
    | error =>
      simp only [TurnWriter.step, hpc, Option.some.injEq, Prod.mk.injEq] at hs
      exact .inl (hs.1 ▸ hfresh)
    | content text => simp [TurnWriter.step, hpc] at hs
  | setCache record =>
    have hother : a.key.conversation = conversation ∨ s.Fresh conversation := h.symm.imp_left And.left
    simp only [RecordTask.KeepsFresh, hpc] at hkeeps
    cases reply with
    | ok =>
      simp only [TurnWriter.step, hpc, Option.some.injEq, Prod.mk.injEq] at hs
      exact .inl (hs.1 ▸ RecordStore.fresh_setCache hother hkeeps)
    | error =>
      simp only [TurnWriter.step, hpc, Option.some.injEq, Prod.mk.injEq] at hs
      exact .inl (hs.1 ▸ RecordStore.fresh_of_failed hother hkeeps)
    | content text => simp [TurnWriter.step, hpc] at hs
  | spawn =>
    have hfresh := h.resolve_right (by simp [RecordTask.Settles, hpc])
    cases reply <;> simp only [TurnWriter.step, hpc, reduceCtorEq, Option.some.injEq, Prod.mk.injEq] at hs
    · exact .inl (hs.1 ▸ hfresh)
    · exact .inl (hs.1 ▸ hfresh)
  | delCache =>
    have hother : a.key.conversation = conversation ∨ s.Fresh conversation := h.symm.imp_left And.left
    simp only [RecordTask.KeepsFresh, hpc] at hkeeps
    cases reply with
    | ok =>
      simp only [TurnWriter.step, hpc, Option.some.injEq, Prod.mk.injEq] at hs
      exact .inl (hs.1 ▸ RecordStore.fresh_delCache hother)
    | error =>
      simp only [TurnWriter.step, hpc, Option.some.injEq, Prod.mk.injEq] at hs
      exact .inl (hs.1 ▸ RecordStore.fresh_of_failed hother hkeeps)
    | content text => simp [TurnWriter.step, hpc] at hs
  | finished => simp [TurnWriter.step, hpc] at hs

theorem turnCompressor_fresh {c c' : TurnCompressor}
    (hkeeps : c.key.conversation = conversation → (RecordTask.compress c).KeepsFresh s reply)
    (h : s.Fresh conversation ∨ (RecordTask.compress c).Settles conversation)
    (hs : c.step s reply = some (s', c')) :
    s'.Fresh conversation ∨ (RecordTask.compress c').Settles conversation := by
  cases hpc : c.pc with
  | readCache | get | summarize record =>
    have hfresh := h.resolve_right (by simp [RecordTask.Settles, hpc])
    have hstore : s' = s := by
      cases reply <;> simp only [TurnCompressor.step, hpc, reduceCtorEq] at hs <;>
        (try split at hs) <;> exact (Prod.mk.inj (Option.some.inj hs)).1.symm
    exact .inl (hstore ▸ hfresh)
  | put record =>
    have hfresh := h.resolve_right (by simp [RecordTask.Settles, hpc])
    cases reply with
    | ok =>
      simp only [TurnCompressor.step, hpc, Option.some.injEq, Prod.mk.injEq] at hs
      obtain ⟨rfl, rfl⟩ := hs
      by_cases hconv : c.key.conversation = conversation
      · exact .inr ⟨hconv, rfl⟩
      · exact .inl (RecordStore.fresh_put_of_ne hfresh hconv)
    | error =>
      simp only [TurnCompressor.step, hpc, Option.some.injEq, Prod.mk.injEq] at hs
      exact .inl (hs.1 ▸ hfresh)
    | content text => simp [TurnCompressor.step, hpc] at hs
  | delCache =>
    have hother : c.key.conversation = conversation ∨ s.Fresh conversation := h.symm.imp_left And.left
    simp only [RecordTask.KeepsFresh, hpc] at hkeeps
    cases reply with
    | ok =>
      simp only [TurnCompressor.step, hpc, Option.some.injEq, Prod.mk.injEq] at hs
      exact .inl (hs.1 ▸ RecordStore.fresh_delCache hother)
    | error =>
      simp only [TurnCompressor.step, hpc, Option.some.injEq, Prod.mk.injEq] at hs
      exact .inl (hs.1 ▸ RecordStore.fresh_of_failed hother hkeeps)
    | content text => simp [TurnCompressor.step, hpc] at hs
  | finished => simp [TurnCompressor.step, hpc] at hs

theorem recordReader_fresh {r r' : RecordReader}
    (hkeeps : r.key.conversation = conversation → (RecordTask.read r).KeepsFresh s reply)
    (h : s.Fresh conversation ∨ (RecordTask.read r).Settles conversation)
    (hs : r.step s reply = some (s', r')) :
    s'.Fresh conversation ∨ (RecordTask.read r').Settles conversation := by
  cases hpc : r.pc with
  | readCache | get =>
    have hfresh := h.resolve_right (by simp [RecordTask.Settles, hpc])
    have hstore : s' = s := by
      cases reply <;> simp only [RecordReader.step, hpc, reduceCtorEq] at hs <;>
        (try split at hs) <;> exact (Prod.mk.inj (Option.some.inj hs)).1.symm
    exact .inl (hstore ▸ hfresh)
  | setCache record =>
    have hother : r.key.conversation = conversation ∨ s.Fresh conversation := h.symm.imp_left And.left
    simp only [RecordTask.KeepsFresh, hpc] at hkeeps
    cases reply with
    | ok =>
      simp only [RecordReader.step, hpc, Option.some.injEq, Prod.mk.injEq] at hs
      exact .inl (hs.1 ▸ RecordStore.fresh_setCache hother hkeeps)
    | error =>
      simp only [RecordReader.step, hpc, Option.some.injEq, Prod.mk.injEq] at hs
      exact .inl (hs.1 ▸ RecordStore.fresh_of_failed hother hkeeps)
    | content text => simp [RecordReader.step, hpc] at hs
  | finished => simp [RecordReader.step, hpc] at hs

theorem recordTask_fresh {t t' : RecordTask} {new : List RecordTask}
    (hkeeps : t.key.conversation = conversation → t.KeepsFresh s reply)
    (h : s.Fresh conversation ∨ t.Settles conversation)
    (hs : t.step s model reply = some (s', t', new)) :
    s'.Fresh conversation ∨ t'.Settles conversation := by
  cases t with
  | write a =>
    obtain ⟨⟨w, a', new'⟩, ha, hm⟩ := Option.map_eq_some_iff.mp hs
    cases hm
    exact turnWriter_fresh hkeeps h ha
  | compress c =>
    obtain ⟨⟨w, c'⟩, hc, hm⟩ := Option.map_eq_some_iff.mp hs
    cases hm
    exact turnCompressor_fresh hkeeps h hc
  | read r =>
    obtain ⟨⟨w, r'⟩, hr, hm⟩ := Option.map_eq_some_iff.mp hs
    cases hm
    exact recordReader_fresh hkeeps h hr

end Step

/-! ## Runs -/

namespace RecordConfig
variable {c c' : RecordConfig} {action : RecordAction} {conversation : Uuid}

/-- The call keeps the entry current, or another task has the entry still to set or to drop. -/
def KeepsFresh (c : RecordConfig) : RecordAction → Prop
  | .run k _ reply => ∀ t, c.tasks[k]? = some t → t.KeepsFresh c.store reply ∨
      ∃ l u, l ≠ k ∧ c.tasks[l]? = some u ∧ u.Settles t.key.conversation
  | .write .. | .read .. | .expire _ => True

/-- A cached record is the stored one, or a task has the entry still to set or to drop. -/
def Settled (c : RecordConfig) (conversation : Uuid) : Prop :=
  c.store.Fresh conversation ∨ ∃ t ∈ c.tasks, t.Settles conversation

theorem step_settled (h : c.Settled conversation) (hok : c.KeepsFresh action)
    (hs : c.step action = some c') : c'.Settled conversation := by
  have hadd : ∀ t, Settled { c with tasks := c.tasks ++ [t] } conversation := by
    intro t
    refine h.imp_right fun ⟨u, hu, hsettles⟩ => ⟨u, List.mem_append_left _ hu, hsettles⟩
  cases action with
  | write site owner conversationId turn =>
    obtain rfl := Option.some.inj hs
    exact hadd _
  | read key today =>
    obtain rfl := Option.some.inj hs
    exact hadd _
  | run k model reply =>
    obtain ⟨t, ht, hs⟩ := Option.bind_eq_some_iff.mp hs
    obtain ⟨⟨s', t', new⟩, hm, hs⟩ := Option.bind_eq_some_iff.mp hs
    obtain rfl := Option.some.inj hs
    obtain ⟨others, hreplaced, hothers⟩ := advance_replaced ht t' new
    by_cases hother : ∃ l u, l ≠ k ∧ c.tasks[l]? = some u ∧ u.Settles conversation
    · obtain ⟨l, u, hl, hu, hsettles⟩ := hother
      have hset : (c.tasks.set k t')[l]? = some u := by rw [List.getElem?_set_ne (Ne.symm hl), hu]
      exact .inr ⟨u, List.mem_append_left _ (List.mem_of_getElem? hset), hsettles⟩
    · have hbefore : c.store.Fresh conversation ∨ t.Settles conversation := by
        refine h.imp_right fun ⟨u, hu, hsettles⟩ => ?_
        rcases hreplaced.mem_before.mp hu with rfl | hu
        · exact hsettles
        · obtain ⟨l, hl, hu⟩ := hothers u hu
          exact absurd ⟨l, u, hl, hu, hsettles⟩ hother
      have hkeeps : t.key.conversation = conversation → t.KeepsFresh c.store reply := by
        rintro rfl
        exact (hok t ht).resolve_right hother
      refine (recordTask_fresh hkeeps hbefore hm).imp_right fun hsettles => ?_
      exact ⟨t', hreplaced.successor_mem, hsettles⟩
  | expire deleted =>
    obtain rfl := Option.some.inj hs
    rcases h with hfresh | hsettles
    · exact .inl (RecordStore.fresh_delCache (.inr hfresh))
    · exact .inr hsettles

theorem settled_reachable {stored : RecordKey → Option ConversationRecord}
    (h : Run step KeepsFresh (init stored) c) (conversation : Uuid) : c.Settled conversation :=
  h.invariant (I := fun c => c.Settled conversation) (.inl fun _ _ hcached => (by cases hcached))
    fun _ _ _ _ hc hok hs => step_settled hc hok hs

/-- When no task of the conversation is left, what is cached for it is what is stored. -/
theorem cached_is_stored {stored : RecordKey → Option ConversationRecord}
    (h : Run step KeepsFresh (init stored) c)
    (hidle : ∀ t ∈ c.tasks, t.key.conversation = conversation → t.Finished) :
    ∀ owner record, c.store.cached conversation = some (owner, record) →
      c.store.stored { owner, conversation } = some record := by
  rcases settled_reachable h conversation with hfresh | ⟨t, ht, hsettles⟩
  · exact hfresh
  · exact absurd (hidle t ht hsettles.conversation) hsettles.not_finished

theorem keepsFresh_single {s : RecordStore} {t : RecordTask} {model : String} {reply : Reply}
    (h : t.KeepsFresh s reply) : KeepsFresh { store := s, tasks := [t] } (.run 0 model reply) := by
  intro u hu
  obtain rfl := Option.some.inj hu
  exact .inl h

def finalizer (pc : TurnWriterPc) : TurnWriter :=
  { site := .finalize, owner := 1, conversationId := some 5, turn := plainTurn 0, pc }

/-- A turn is finalized, and what it caches is what it has stored. -/
theorem finalized_is_cached : ∃ c, Run step KeepsFresh (init fun _ => none) c ∧
    c.store.cached 5 = some (1, [.regular (plainTurn 0) none]) ∧
      c.store.stored ⟨1, 5⟩ = some [.regular (plainTurn 0) none] := by
  let record : ConversationRecord := [.regular (plainTurn 0) none]
  let empty : RecordStore := { stored := fun _ => none, cached := fun _ => none }
  let written := empty.put ⟨1, 5⟩ record
  let cached := written.setCache ⟨1, 5⟩ record
  have hput : written.stored ⟨1, 5⟩ = some record := rfl
  have h0 : Run step KeepsFresh (init fun _ => none) ⟨empty, [.write (finalizer .get)]⟩ :=
    .snoc (a := .write .finalize 1 (some 5) (plainTurn 0)) (.refl _) trivial rfl
  have h1 : Run step KeepsFresh (init fun _ => none) ⟨empty, [.write (finalizer (.put []))]⟩ :=
    .snoc (a := .run 0 "q" .ok) h0 (keepsFresh_single trivial) rfl
  have h2 : Run step KeepsFresh (init fun _ => none)
      ⟨written, [.write (finalizer (.setCache record))]⟩ :=
    .snoc (a := .run 0 "q" .ok) h1 (keepsFresh_single trivial) rfl
  have h3 : Run step KeepsFresh (init fun _ => none) ⟨cached, [.write (finalizer .spawn)]⟩ :=
    .snoc (a := .run 0 "q" .ok) h2 (keepsFresh_single hput) rfl
  have h4 : Run step KeepsFresh (init fun _ => none) ⟨cached, [.write (finalizer .finished)]⟩ :=
    .snoc (a := .run 0 "q" .error) h3 (keepsFresh_single trivial) rfl
  have hidle : ∀ t ∈ [RecordTask.write (finalizer .finished)], t.key.conversation = 5 →
      t.Finished := by
    intro t ht _
    obtain rfl := List.mem_singleton.mp ht
    rfl
  exact ⟨_, h4, rfl, cached_is_stored h4 hidle 1 record rfl⟩

/-- Whether the task is at its end. -/
def idle : RecordTask → Bool
  | .write a => match a.pc with
    | .finished => true
    | _ => false
  | .compress c => match c.pc with
    | .finished => true
    | _ => false
  | .read r => match r.pc with
    | .finished => true
    | _ => false

theorem finished_of_idle {t : RecordTask} (h : idle t = true) : t.Finished := by
  cases t with
  | write a => cases hpc : a.pc <;> simp_all [idle, RecordTask.Finished]
  | compress c => cases hpc : c.pc <;> simp_all [idle, RecordTask.Finished]
  | read r => cases hpc : r.pc <;> simp_all [idle, RecordTask.Finished]

/-- A turn is finalized and cached, and then the next job is cancelled and its partial turn is
persisted. -/
theorem persisted_is_not_cached : ¬ ∀ (stored : RecordKey → Option ConversationRecord)
    (c : RecordConfig) (conversation : Uuid), Run step (fun _ _ => True) (init stored) c →
      (∀ t ∈ c.tasks, t.key.conversation = conversation → t.Finished) →
        ∀ owner record, c.store.cached conversation = some (owner, record) →
          c.store.stored { owner, conversation } = some record := by
  intro hall
  have hexec : (exec step (fun _ _ => true) (init fun _ => none)
      [.write .finalize 1 (some 5) (plainTurn 0), .run 0 "q" .ok, .run 0 "q" .ok, .run 0 "q" .ok,
        .run 0 "q" .error, .write .persist 1 (some 5) (plainTurn 1), .run 1 "q" .ok,
        .run 1 "q" .ok]).any (fun c => c.tasks.all idle &&
          ((c.store.cached 5).any fun e => e.1 = 1 && e.2.length = 1) &&
            (c.store.stored ⟨1, 5⟩).any fun r => r.length = 2) = true := by decide +kernel
  obtain ⟨c, hrun, hc⟩ :=
    @Run.exists_of_exec _ _ _ _ (fun _ _ => True) (fun _ _ _ => trivial) _ _ _ hexec
  simp only [Bool.and_eq_true, List.all_eq_true, Option.any_eq_true, decide_eq_true_eq] at hc
  obtain ⟨⟨hidle, ⟨owner, record⟩, hcached, rfl, hone⟩, record', hstored, htwo⟩ := hc
  have hsame := hall _ c 5 hrun (fun t ht _ => finished_of_idle (hidle t ht)) 1 record hcached
  rw [hstored, Option.some.injEq] at hsame
  have hlength : record'.length = 1 := by rw [hsame]; exact hone
  omega

end RecordConfig

end Veronex
