import Mathlib.Data.List.Sort
import Veronex.Foundation.KeyChains
import Veronex.Foundation.StableSort
import Veronex.Inference.Cluster

/-! # Grouping jobs into conversations

`compute_message_hashes` (`domain/services/message_hashing.rs`) and `group_sessions_before`
(`infrastructure/outbound/session_grouping.rs`), run on the rows that `save` inserts.

A job is to join the conversation of the job whose full hash is its prefix hash. The prefix is the
array without its last message, but a turn adds two: the reply and the next user message. So the
prefix of a turn is no earlier turn's array, and the turns meet only where the caller sent more than
them (`sent_of_bridged`). The jobs that `submit` saves carry no array at all
(`groupSessionsBefore_submitted`).
-/
namespace Veronex
open Concurrency
set_option autoImplicit false

/-- `compute_message_hashes`. `hash` is the hex form of the Blake2b-256 digest of an array's JSON
text. -/
def computeMessageHashes (hash : List Json → String) : Json → Option (String × String)
  | .arr items =>
    if items.isEmpty then none
    else
      let messagesHash := hash items
      let messagesPrefixHash := if items.length ≤ 1 then "" else hash items.dropLast
      some (messagesHash, messagesPrefixHash)
  | _ => none

namespace SessionGrouping

/-- The types `inference_jobs.conversation_id` may be declared with. The schema under
`docker/postgres` has `UUID`; the statements here treat the column as `TEXT`. -/
inductive ColumnType
  | uuid
  | text
  deriving DecidableEq

/-- What a run takes from its surroundings: the column, the start of a day in the session's time
zone, the day of `NOW()`, and the id that `Uuid::now_v7` gives while a job is handled. -/
structure Setting where
  conversationColumn : ColumnType
  startOfDay : ℕ → Millis
  today : ℕ
  newV7 : Uuid → Uuid

/-- A conversation id as the run holds it, in a `String`: the text of an id or, where
`unwrap_or_default` had none, the empty text. -/
abbrev ConversationText := Option Uuid

abbrev HashKey := Option Uuid × Option Uuid × String

def Setting.cutoffAt (s : Setting) : Option ℕ → Millis
  | some date => s.startOfDay date
  | none => s.startOfDay s.today

/-- The first query: the jobs that have a conversation, the latest first. -/
def existingRows (table : List JobRow) (cutoffAt : Millis) : List JobRow :=
  ((table.filter fun row => row.conversationId.isSome && row.messagesHash.isSome &&
    decide (row.createdAt < cutoffAt)).insertionSort fun a b => b.createdAt ≤ a.createdAt).take 50000

def isUngrouped (cutoffAt : Millis) (row : JobRow) : Bool :=
  row.conversationId.isNone && row.messagesHash.isSome && decide (row.createdAt < cutoffAt)

/-- The second query: the jobs without one, the earliest first. -/
def ungroupedRows (table : List JobRow) (cutoffAt : Millis) : List JobRow :=
  ((table.filter (isUngrouped cutoffAt)).insertionSort fun a b =>
    a.createdAt ≤ b.createdAt).take 10000

/-- `row.try_get::<String, _>("conversation_id").unwrap_or_default()`: only a text column decodes
as a `String`. -/
def conversationText : ColumnType → JobRow → ConversationText
  | .text, row => row.conversationId
  | .uuid, _ => none

/-- `hash_to_conv.entry(..).or_insert(..)` for a row of the first query. -/
def loadRow (column : ColumnType) (map : HashKey → Option ConversationText) (row : JobRow) :
    HashKey → Option ConversationText :=
  match row.messagesHash with
  | some h =>
    let key := (row.apiKeyId, row.accountId, h)
    match map key with
    | some _ => map
    | none => Function.update map key (some (conversationText column row))
  | none => map

def hashToConv (column : ColumnType) (rows : List JobRow) : HashKey → Option ConversationText :=
  rows.foldl (loadRow column) fun _ => none

/-- The locals of the loop over the ungrouped rows. -/
structure Batch where
  hashToConv : HashKey → Option ConversationText
  idsToUpdate : List (Uuid × ConversationText)

def Batch.handle (newV7 : Uuid → Uuid) (b : Batch) (row : JobRow) : Batch :=
  match row.messagesPrefixHash with
  | none => b
  | some p =>
    let conversationId :=
      if p.isEmpty then some (newV7 row.id)
      else
        match b.hashToConv (row.apiKeyId, row.accountId, p) with
        | some conv => conv
        | none => some (newV7 row.id)
    let hashToConv :=
      match row.messagesHash with
      | some h =>
        Function.update b.hashToConv (row.apiKeyId, row.accountId, h) (some conversationId)
      | none => b.hashToConv
    { hashToConv, idsToUpdate := b.idsToUpdate ++ [(row.id, conversationId)] }

/-- The `UPDATE` from the unnested pairs. -/
def updateConversations (ids : List (Uuid × ConversationText)) (table : List JobRow) :
    List JobRow :=
  table.map fun row =>
    match ids.lookup row.id with
    | some conv => { row with conversationId := conv }
    | none => row

inductive Error
  /-- `column "conversation_id" is of type uuid but expression is of type text`: Postgres has no
  assignment cast between the two. -/
  | typeMismatch
  deriving DecidableEq

/-- `group_sessions_before` on a table: the number it returns and the table it leaves. -/
def groupSessionsBefore (s : Setting) (table : List JobRow) (cutoff : Option ℕ) :
    Except Error (ℕ × List JobRow) :=
  let cutoffAt := s.cutoffAt cutoff
  let existing := hashToConv s.conversationColumn (existingRows table cutoffAt)
  let rows := ungroupedRows table cutoffAt
  if rows.isEmpty then .ok (0, table)
  else
    let ids := (rows.foldl (Batch.handle s.newV7) ⟨existing, []⟩).idsToUpdate
    if ids.isEmpty then .ok (0, table)
    else
      match s.conversationColumn with
      | .uuid => .error .typeMismatch
      | .text => .ok (ids.length, updateConversations ids table)

/-! ## The loop is a pass along chains of hashes -/

section Pass

def rowKey (row : JobRow) : HashKey := (row.apiKeyId, row.accountId, row.messagesHash.getD "")

def rowParent (row : JobRow) : Option HashKey :=
  row.messagesPrefixHash.bind fun p =>
    if p.isEmpty then none else some (row.apiKeyId, row.accountId, p)

def freshText (newV7 : Uuid → Uuid) (row : JobRow) : ConversationText := some (newV7 row.id)

def Hashed (row : JobRow) : Prop := row.messagesHash.isSome ∧ row.messagesPrefixHash.isSome

variable {newV7 : Uuid → Uuid}

theorem handle_eq {row : JobRow} (h : Hashed row) (b : Batch) :
    b.handle newV7 row =
      { hashToConv := KeyChain.register rowKey rowParent (freshText newV7) b.hashToConv row
        idsToUpdate := b.idsToUpdate ++
          [(row.id, KeyChain.groupOf rowParent (freshText newV7) b.hashToConv row)] } := by
  obtain ⟨full, hfull⟩ := Option.isSome_iff_exists.mp h.1
  obtain ⟨pre, hpre⟩ := Option.isSome_iff_exists.mp h.2
  have hkey : rowKey row = (row.apiKeyId, row.accountId, full) := by
    simp [rowKey, hfull]
  have hgroup : KeyChain.groupOf rowParent (freshText newV7) b.hashToConv row =
      if pre.isEmpty then some (newV7 row.id)
      else
        match b.hashToConv (row.apiKeyId, row.accountId, pre) with
        | some conv => conv
        | none => some (newV7 row.id) := by
    unfold KeyChain.groupOf rowParent freshText
    rw [hpre, Option.bind_some]
    split
    · rfl
    · rw [Option.bind_some]
      cases b.hashToConv (row.apiKeyId, row.accountId, pre) <;> rfl
  simp only [Batch.handle, hpre, hfull, KeyChain.register, hgroup, hkey]

theorem foldl_handle {rows : List JobRow} (h : ∀ row ∈ rows, Hashed row) (b : Batch) :
    (rows.foldl (Batch.handle newV7) b).idsToUpdate = b.idsToUpdate ++
      (KeyChain.assign rowKey rowParent (freshText newV7) b.hashToConv rows).map
        fun x => (x.1.id, x.2) := by
  induction rows generalizing b with
  | nil => simp [KeyChain.assign]
  | cons row rows ih =>
    have hrow := (handle_eq (h row List.mem_cons_self) b : b.handle newV7 row = _)
    have hrest := ih (fun r hr => h r (List.mem_cons_of_mem row hr)) (b.handle newV7 row)
    rw [List.foldl_cons, hrest, hrow]
    simp only [KeyChain.assign, List.map_cons, List.append_assoc, List.singleton_append]

end Pass

/-! ## What the queries return -/

section Queries
variable {table : List JobRow} {cutoffAt : Millis} {row : JobRow}

theorem ungroupedRows_eq (hlimit : (table.filter (isUngrouped cutoffAt)).length ≤ 10000) :
    ungroupedRows table cutoffAt =
      (table.filter (isUngrouped cutoffAt)).insertionSort fun a b => a.createdAt ≤ b.createdAt := by
  unfold ungroupedRows
  rw [List.take_of_length_le]
  rw [List.length_insertionSort]
  exact hlimit

theorem mem_ungroupedRows (hlimit : (table.filter (isUngrouped cutoffAt)).length ≤ 10000) :
    row ∈ ungroupedRows table cutoffAt ↔ row ∈ table ∧ isUngrouped cutoffAt row := by
  rw [ungroupedRows_eq hlimit, List.mem_insertionSort, List.mem_filter]

theorem of_mem_ungroupedRows (h : row ∈ ungroupedRows table cutoffAt) :
    row ∈ table ∧ isUngrouped cutoffAt row := by
  have hsorted := List.mem_of_mem_take h
  rwa [List.mem_insertionSort, List.mem_filter] at hsorted

theorem pairwise_ungroupedRows :
    (ungroupedRows table cutoffAt).Pairwise fun a b => a.createdAt ≤ b.createdAt := by
  have hsorted : ((table.filter (isUngrouped cutoffAt)).insertionSort fun a b =>
      a.createdAt ≤ b.createdAt).Pairwise fun a b => a.createdAt ≤ b.createdAt :=
    pairwise_insertionSort_key JobRow.createdAt _
  exact hsorted.sublist (List.take_sublist _ _)

theorem nodup_ungroupedRows (hids : (table.map JobRow.id).Nodup) :
    ((ungroupedRows table cutoffAt).map JobRow.id).Nodup := by
  have hfiltered : ((table.filter (isUngrouped cutoffAt)).map JobRow.id).Nodup :=
    hids.sublist (List.filter_sublist.map JobRow.id)
  have hsorted := ((List.perm_insertionSort (fun a b : JobRow => a.createdAt ≤ b.createdAt)
    (table.filter (isUngrouped cutoffAt))).map JobRow.id).nodup_iff.mpr hfiltered
  exact hsorted.sublist ((List.take_sublist _ _).map JobRow.id)

/-- The rows handled before the job, the latest first. -/
def before (rows : List JobRow) (id : Uuid) : List JobRow :=
  (rows.takeWhile fun row => row.id ≠ id).reverse

theorem split_before {rows : List JobRow} (hids : (rows.map JobRow.id).Nodup) (h : row ∈ rows) :
    ∃ post, rows = (before rows row.id).reverse ++ row :: post := by
  obtain ⟨pre, post, rfl⟩ := List.append_of_mem h
  have hne : ∀ r ∈ pre, decide (r.id ≠ row.id) = true := by
    intro r hr
    rw [List.map_append, List.map_cons] at hids
    have hdisjoint := (List.nodup_append.mp hids).2.2
    simpa using hdisjoint r.id (List.mem_map_of_mem hr) row.id (by simp)
  refine ⟨post, ?_⟩
  rw [before, List.takeWhile_append_of_pos hne, List.takeWhile_cons_of_neg (by simp),
    List.append_nil, List.reverse_reverse]

theorem le_of_mem_before {rows : List JobRow} {r : JobRow} (hids : (rows.map JobRow.id).Nodup)
    (hsorted : rows.Pairwise fun a b => a.createdAt ≤ b.createdAt) (h : row ∈ rows)
    (hr : r ∈ before rows row.id) : r.createdAt ≤ row.createdAt := by
  obtain ⟨post, hsplit⟩ := split_before hids h
  rw [hsplit] at hsorted
  have hpairs := (List.pairwise_append.mp hsorted).2.2
  exact hpairs r (List.mem_reverse.mpr hr) row List.mem_cons_self

end Queries

/-! ## The conversation a job gets -/

section Assigned
variable (s : Setting) (table : List JobRow) (cutoffAt : Millis)

def known : HashKey → Option ConversationText :=
  hashToConv s.conversationColumn (existingRows table cutoffAt)

/-- The job that began the conversation a job joins, or the conversation when an earlier run or the
caller named it. -/
def startOf (row : JobRow) : JobRow ⊕ ConversationText :=
  KeyChain.start rowKey rowParent (known s table cutoffAt)
    (before (ungroupedRows table cutoffAt) row.id) row

def startText : JobRow ⊕ ConversationText → ConversationText :=
  Sum.elim (freshText s.newV7) id

def assigned : List (Uuid × ConversationText) :=
  ((ungroupedRows table cutoffAt).foldl (Batch.handle s.newV7)
    ⟨known s table cutoffAt, []⟩).idsToUpdate

variable {s table cutoffAt} {row : JobRow}

theorem lookup_assigned (hids : (table.map JobRow.id).Nodup) (hhashed : ∀ r ∈ table, Hashed r ∨
    r.messagesHash = none) (h : row ∈ ungroupedRows table cutoffAt) :
    (assigned s table cutoffAt).lookup row.id =
      some (startText s (startOf s table cutoffAt row)) := by
  have hrows : ∀ r ∈ ungroupedRows table cutoffAt, Hashed r := by
    intro r hr
    obtain ⟨hmem, hungrouped⟩ := of_mem_ungroupedRows hr
    refine (hhashed r hmem).resolve_right fun hnone => ?_
    simp [isUngrouped, hnone] at hungrouped
  obtain ⟨post, hsplit⟩ := split_before (nodup_ungroupedRows hids) h
  have hknown : ∀ k, known s table cutoffAt k = (known s table cutoffAt k).map id := by simp
  obtain ⟨done, rest, hdone, hpass⟩ := KeyChain.assign_split rowKey rowParent (freshText s.newV7)
    hknown (before (ungroupedRows table cutoffAt) row.id).reverse post row
  rw [← hsplit, List.reverse_reverse] at hpass
  rw [assigned, foldl_handle hrows, List.nil_append, hpass, List.map_append, List.map_cons,
    List.lookup_eq_some_iff]
  refine ⟨_, _, rfl, ?_⟩
  intro p hp
  obtain ⟨x, hx, rfl⟩ := List.mem_map.mp hp
  have hmem : x.1 ∈ done.map Prod.fst := List.mem_map_of_mem hx
  rw [hdone, before, List.reverse_reverse] at hmem
  have htaken := List.mem_takeWhile_imp hmem
  have hne : x.1.id ≠ row.id := of_decide_eq_true htaken
  exact bne_iff_ne.mpr (Ne.symm hne)

theorem of_loadRow {column : ColumnType} {map : HashKey → Option ConversationText} {k : HashKey}
    {conv : ConversationText} (h : loadRow column map row k = some conv) :
    map k = some conv ∨ rowKey row = k ∧ conv = conversationText column row := by
  unfold loadRow at h
  cases hfull : row.messagesHash with
  | none => exact .inl (by simpa [hfull] using h)
  | some full =>
    have hkey : rowKey row = (row.apiKeyId, row.accountId, full) := by simp [rowKey, hfull]
    cases hold : map (row.apiKeyId, row.accountId, full) with
    | some conv' => exact .inl (by simpa [hfull, hold] using h)
    | none =>
      simp only [hfull, hold] at h
      by_cases hk : k = (row.apiKeyId, row.accountId, full)
      · rw [hk, Function.update_self, Option.some.injEq] at h
        exact .inr ⟨hkey.trans hk.symm, h.symm⟩
      · rw [Function.update_of_ne hk] at h
        exact .inl h

theorem foldl_loadRow {column : ColumnType} (rows : List JobRow)
    (map : HashKey → Option ConversationText) {k : HashKey} {conv : ConversationText}
    (h : rows.foldl (loadRow column) map k = some conv) :
    map k = some conv ∨ ∃ row ∈ rows, rowKey row = k ∧ conv = conversationText column row := by
  induction rows generalizing map with
  | nil => exact .inl h
  | cons row rows ih =>
    rcases ih _ h with hmap | ⟨r, hr, hk, hconv⟩
    · rcases of_loadRow hmap with hold | hrow
      · exact .inl hold
      · exact .inr ⟨row, List.mem_cons_self, hrow⟩
    · exact .inr ⟨r, List.mem_cons_of_mem row hr, hk, hconv⟩

/-- A known hash is that of a job with a conversation. -/
theorem exists_of_known {k : HashKey} {conv : ConversationText}
    (h : known s table cutoffAt k = some conv) :
    ∃ row ∈ table, row.messagesHash.isSome ∧ rowKey row = k ∧ row.conversationId.isSome ∧
      conv = conversationText s.conversationColumn row := by
  rcases foldl_loadRow _ _ h with hnil | ⟨row, hrow, hk, hconv⟩
  · cases hnil
  · have hsorted := List.mem_of_mem_take hrow
    rw [List.mem_insertionSort, List.mem_filter] at hsorted
    obtain ⟨hmem, hcond⟩ := hsorted
    simp only [Bool.and_eq_true] at hcond
    exact ⟨row, hmem, hcond.1.2, hk, hcond.1.1, hconv⟩

theorem startOf_mem {c : JobRow} (h : row ∈ ungroupedRows table cutoffAt)
    (hc : startOf s table cutoffAt row = .inl c) : c ∈ ungroupedRows table cutoffAt := by
  rcases KeyChain.mem_of_start hc with rfl | hbefore
  · exact h
  · exact List.takeWhile_subset _ (List.mem_reverse.mp hbefore)

/-- Ids that are new are told apart from each other and from those of the table. -/
theorem startOf_eq_of_text (hids : (table.map JobRow.id).Nodup)
    (hnew : Function.Injective s.newV7)
    (hunused : ∀ r ∈ table, ∀ id, r.conversationId ≠ some (s.newV7 id)) {a b : JobRow}
    (ha : a ∈ ungroupedRows table cutoffAt) (hb : b ∈ ungroupedRows table cutoffAt)
    (h : startText s (startOf s table cutoffAt a) = startText s (startOf s table cutoffAt b)) :
    startOf s table cutoffAt a = startOf s table cutoffAt b := by
  have hfresh : ∀ (c : JobRow) (conv : ConversationText) (r : JobRow),
      startOf s table cutoffAt r = .inr conv → freshText s.newV7 c ≠ conv := by
    intro c conv r hr heq
    obtain ⟨k, hk⟩ := KeyChain.known_of_start hr
    obtain ⟨old, hold, -, -, -, hconv⟩ := exists_of_known hk
    cases hcol : s.conversationColumn with
    | text =>
      rw [hcol] at hconv
      exact hunused old hold c.id (hconv.symm.trans heq.symm)
    | uuid =>
      rw [hcol] at hconv
      cases heq.trans hconv
  cases hsa : startOf s table cutoffAt a with
  | inl x =>
    cases hsb : startOf s table cutoffAt b with
    | inl y =>
      rw [hsa, hsb] at h
      have hid : x.id = y.id := hnew (Option.some.inj h)
      have hx := startOf_mem ha hsa
      have hy := startOf_mem hb hsb
      rw [List.inj_on_of_nodup_map (nodup_ungroupedRows hids) hx hy hid]
    | inr conv =>
      rw [hsa, hsb] at h
      exact absurd h (hfresh x conv b hsb)
  | inr conv =>
    cases hsb : startOf s table cutoffAt b with
    | inl y =>
      rw [hsa, hsb] at h
      exact absurd h.symm (hfresh y conv a hsa)
    | inr conv' =>
      rw [hsa, hsb] at h
      exact congrArg Sum.inr h

theorem updated_iff (hids : (table.map JobRow.id).Nodup) (hhashed : ∀ r ∈ table, Hashed r ∨
    r.messagesHash = none) (h : row ∈ ungroupedRows table cutoffAt) (conv : Uuid) :
    (∃ r ∈ updateConversations (assigned s table cutoffAt) table,
      r.id = row.id ∧ r.conversationId = some conv) ↔
        startText s (startOf s table cutoffAt row) = some conv := by
  have hlookup := lookup_assigned (s := s) hids hhashed h
  have hmem := (of_mem_ungroupedRows h).1
  have hupdated : ∀ r ∈ table, r.id = row.id →
      (match (assigned s table cutoffAt).lookup r.id with
        | some conv => { r with conversationId := conv }
        | none => r).conversationId = startText s (startOf s table cutoffAt row) := by
    intro r hr hid
    rw [List.inj_on_of_nodup_map hids hr hmem hid, hlookup]
  constructor
  · rintro ⟨r, hr, hid, hconv⟩
    obtain ⟨old, hold, rfl⟩ := List.mem_map.mp hr
    have hoId : old.id = row.id := by
      rw [← hid]
      split <;> rfl
    rw [← hupdated old hold hoId]
    exact hconv
  · intro htext
    refine ⟨_, List.mem_map_of_mem hmem, ?_, (hupdated row hmem rfl).trans htext⟩
    split <;> rfl

end Assigned

/-! ## Conversations -/

section Turns
variable (hash : List Json → String) (s : Setting) (jobs : List InferenceJob) (cutoffAt : Millis)

def rowOf (job : InferenceJob) : JobRow := JobRow.ofJob (computeMessageHashes hash) job

def savedRows : List JobRow := jobs.map (rowOf hash)

/-- The caller's next request: the array extended by the reply and one new message. -/
structure NextTurn (a b : InferenceJob) : Prop where
  later : a.createdAt < b.createdAt
  apiKey : b.apiKeyId = a.apiKeyId
  account : b.accountId = a.accountId
  extended : ∃ messages reply user, a.messages = some (.arr messages) ∧
    b.messages = some (.arr (messages ++ [reply, user]))

/-- The requests of a conversation, saved before the cutoff and not yet in one. -/
structure Turns (turns : List InferenceJob) : Prop where
  nonempty : turns ≠ []
  next : turns.IsChain NextTurn
  saved : ∀ t ∈ turns, t ∈ jobs
  array : ∀ t ∈ turns, ∃ first rest, t.messages = some (.arr (first :: rest))
  unhashed : ∀ t ∈ turns, t.messagesHash = none
  ungrouped : ∀ t ∈ turns, t.conversationId = none
  early : ∀ t ∈ turns, t.createdAt < cutoffAt

/-- A caller's array, looked up in front of one of the jobs. -/
def leadsTo (job : InferenceJob) (messages : List Json) : Option (JobRow ⊕ ConversationText) :=
  KeyChain.origin rowKey rowParent (known s (savedRows hash jobs) cutoffAt)
    (before (ungroupedRows (savedRows hash jobs) cutoffAt) job.id)
    (job.apiKeyId, job.accountId, hash messages)

/-- Between the two requests the earlier array was also sent with the reply alone, and that request
belongs to the chain of the earlier one. -/
def Bridged (a b : InferenceJob) : Prop :=
  ∃ messages reply user, a.messages = some (.arr messages) ∧
    b.messages = some (.arr (messages ++ [reply, user])) ∧
      leadsTo hash s jobs cutoffAt b (messages ++ [reply]) =
        some (startOf s (savedRows hash jobs) cutoffAt (rowOf hash a))

/-- The run left all the requests with one conversation id. -/
def OneConversation (result : Except Error (ℕ × List JobRow)) (turns : List InferenceJob) : Prop :=
  ∃ grouped table conv, result = .ok (grouped, table) ∧
    ∀ t ∈ turns, ∃ row ∈ table, row.id = t.id ∧ row.conversationId = some conv

variable {hash s jobs cutoffAt} {a b : InferenceJob}

theorem rowOf_hashed (job : InferenceJob) :
    Hashed (rowOf hash job) ∨ (rowOf hash job).messagesHash = none := by
  unfold Hashed rowOf JobRow.ofJob
  cases job.messagesHash with
  | none => cases job.messages.bind (computeMessageHashes hash) <;> simp
  | some h =>
    cases job.messagesPrefixHash with
    | none => cases job.messages.bind (computeMessageHashes hash) <;> simp
    | some p => simp

theorem savedRows_hashed : ∀ r ∈ savedRows hash jobs, Hashed r ∨ r.messagesHash = none := by
  intro r hr
  obtain ⟨job, -, rfl⟩ := List.mem_map.mp hr
  exact rowOf_hashed job

theorem map_id_savedRows : (savedRows hash jobs).map JobRow.id = jobs.map InferenceJob.id := by
  rw [savedRows, List.map_map]
  rfl

theorem rowOf_hashes {items : List Json} (hown : a.messagesHash = none)
    (hmsg : a.messages = some (.arr items)) (hne : items ≠ []) :
    (rowOf hash a).messagesHash = some (hash items) ∧ (rowOf hash a).messagesPrefixHash =
      some (if items.length ≤ 1 then "" else hash items.dropLast) := by
  have hempty : items.isEmpty = false := by simpa using hne
  simp [rowOf, JobRow.ofJob, hown, hmsg, computeMessageHashes, hempty]

/-- The parent of a later turn is the earlier array with the reply. -/
theorem rowParent_next (hhash : ∀ messages, hash messages ≠ "") (hown : b.messagesHash = none)
    {messages : List Json} {reply user : Json}
    (hmsg : b.messages = some (.arr (messages ++ [reply, user]))) :
    rowParent (rowOf hash b) = some (b.apiKeyId, b.accountId, hash (messages ++ [reply])) := by
  have hdrop : (messages ++ [reply, user]).dropLast = messages ++ [reply] := by
    rw [show messages ++ [reply, user] = (messages ++ [reply]) ++ [user] by simp]
    exact List.dropLast_concat
  have hlength : ¬ (messages ++ [reply, user]).length ≤ 1 := by
    simp
  have hpre : (rowOf hash b).messagesPrefixHash = _ := (rowOf_hashes hown hmsg (by simp)).2
  rw [if_neg hlength, hdrop] at hpre
  have hne : (hash (messages ++ [reply])).isEmpty = false := by
    simpa using hhash (messages ++ [reply])
  rw [rowParent, hpre, Option.bind_some, hne]
  rfl

theorem Turns.mem_ungroupedRows {turns : List InferenceJob} (h : Turns jobs cutoffAt turns)
    (hlimit : ((savedRows hash jobs).filter (isUngrouped cutoffAt)).length ≤ 10000)
    {t : InferenceJob} (ht : t ∈ turns) :
    rowOf hash t ∈ ungroupedRows (savedRows hash jobs) cutoffAt := by
  obtain ⟨first, rest, hmsg⟩ := h.array t ht
  have hfull : (rowOf hash t).messagesHash = _ :=
    (rowOf_hashes (h.unhashed t ht) hmsg (by simp)).1
  have hconv : (rowOf hash t).conversationId = none := h.ungrouped t ht
  have hearly : (rowOf hash t).createdAt < cutoffAt := h.early t ht
  refine (SessionGrouping.mem_ungroupedRows hlimit).mpr ⟨List.mem_map_of_mem (h.saved t ht), ?_⟩
  simp [isUngrouped, hfull, hconv, hearly]

/-- Two turns in a row start in one place exactly when they are bridged. -/
theorem bridged_iff (hhash : ∀ messages, hash messages ≠ "")
    (hids : (jobs.map InferenceJob.id).Nodup) (hnext : NextTurn a b) (hown : b.messagesHash = none)
    (ha : rowOf hash a ∈ ungroupedRows (savedRows hash jobs) cutoffAt) :
    Bridged hash s jobs cutoffAt a b ↔
      startOf s (savedRows hash jobs) cutoffAt (rowOf hash a) =
        startOf s (savedRows hash jobs) cutoffAt (rowOf hash b) := by
  constructor
  · rintro ⟨messages, reply, user, -, hmsg, hlead⟩
    have hparent := rowParent_next hhash hown hmsg
    have hstart : startOf s (savedRows hash jobs) cutoffAt (rowOf hash b) =
        (leadsTo hash s jobs cutoffAt b (messages ++ [reply])).getD (.inl (rowOf hash b)) := by
      rw [startOf, KeyChain.start, hparent]
      rfl
    rw [hstart, hlead, Option.getD_some]
  · intro heq
    obtain ⟨messages, reply, user, hold, hmsg⟩ := hnext.extended
    refine ⟨messages, reply, user, hold, hmsg, ?_⟩
    rcases KeyChain.start_cases heq.symm with hself | ⟨p, hp, hlead⟩
    · -- the later request would be among those handled before the earlier one
      have hids' : ((savedRows hash jobs).map JobRow.id).Nodup := by rwa [map_id_savedRows]
      have hle : b.createdAt ≤ a.createdAt := by
        rcases KeyChain.mem_of_start hself with hsame | hbefore
        · exact Nat.le_of_eq (congrArg JobRow.createdAt hsame)
        · exact le_of_mem_before (nodup_ungroupedRows hids') pairwise_ungroupedRows ha hbefore
      exact absurd hnext.later (Nat.not_lt.mpr hle)
    · rw [rowParent_next hhash hown hmsg, Option.some.injEq] at hp
      rw [← hp] at hlead
      exact hlead

theorem groupSessionsBefore_of_mem {table : List JobRow} {cutoff : Option ℕ} {row : JobRow}
    (hids : (table.map JobRow.id).Nodup) (hhashed : ∀ r ∈ table, Hashed r ∨ r.messagesHash = none)
    (h : row ∈ ungroupedRows table (s.cutoffAt cutoff)) :
    groupSessionsBefore s table cutoff =
      match s.conversationColumn with
      | .uuid => .error .typeMismatch
      | .text => .ok ((assigned s table (s.cutoffAt cutoff)).length,
        updateConversations (assigned s table (s.cutoffAt cutoff)) table) := by
  have hrows : (ungroupedRows table (s.cutoffAt cutoff)).isEmpty = false := by
    rw [List.isEmpty_eq_false_iff]
    exact List.ne_nil_of_mem h
  have hassigned : (assigned s table (s.cutoffAt cutoff)).isEmpty = false := by
    rw [List.isEmpty_eq_false_iff]
    intro hnil
    have hlookup := lookup_assigned (s := s) hids hhashed h
    rw [hnil] at hlookup
    cases hlookup
  change (if (ungroupedRows table (s.cutoffAt cutoff)).isEmpty then _
    else if (assigned s table (s.cutoffAt cutoff)).isEmpty then _ else _) = _
  rw [hrows, hassigned]
  rfl

theorem oneConversation_iff {cutoff : Option ℕ} {turns : List InferenceJob}
    (hids : (jobs.map InferenceJob.id).Nodup) (hne : turns ≠ [])
    (hmem : ∀ t ∈ turns, rowOf hash t ∈ ungroupedRows (savedRows hash jobs) (s.cutoffAt cutoff)) :
    OneConversation (groupSessionsBefore s (savedRows hash jobs) cutoff) turns ↔
      s.conversationColumn = .text ∧ ∃ conv : Uuid, ∀ t ∈ turns,
        startText s (startOf s (savedRows hash jobs) (s.cutoffAt cutoff) (rowOf hash t)) =
          some conv := by
  obtain ⟨first, rest, rfl⟩ := List.exists_cons_of_ne_nil hne
  have hids' : ((savedRows hash jobs).map JobRow.id).Nodup := by rwa [map_id_savedRows]
  have hresult := groupSessionsBefore_of_mem (s := s) hids' savedRows_hashed
    (hmem first List.mem_cons_self)
  unfold OneConversation
  rw [hresult]
  cases hcol : s.conversationColumn with
  | uuid =>
    constructor
    · rintro ⟨_, _, _, hok, -⟩
      cases hok
    · rintro ⟨h, -⟩
      cases h
  | text =>
    constructor
    · rintro ⟨_, _, conv, hok, hrows⟩
      cases hok
      refine ⟨rfl, conv, fun t ht => ?_⟩
      exact (updated_iff hids' savedRows_hashed (hmem t ht) conv).mp (hrows t ht)
    · rintro ⟨-, conv, htext⟩
      refine ⟨_, _, conv, rfl, fun t ht => ?_⟩
      exact (updated_iff hids' savedRows_hashed (hmem t ht) conv).mpr (htext t ht)

/-- In a text column the text of a start names a conversation. -/
theorem exists_startText {table : List JobRow} (hcol : s.conversationColumn = .text) (row : JobRow) :
    ∃ conv : Uuid, startText s (startOf s table cutoffAt row) = some conv := by
  cases hstart : startOf s table cutoffAt row with
  | inl c => exact ⟨s.newV7 c.id, rfl⟩
  | inr conv =>
    obtain ⟨k, hk⟩ := KeyChain.known_of_start hstart
    obtain ⟨old, -, -, -, hsome, hconv⟩ := exists_of_known hk
    rw [hcol] at hconv
    obtain ⟨id, hid⟩ := Option.isSome_iff_exists.mp hsome
    exact ⟨id, hconv.trans hid⟩

/-- A run gives the requests of a conversation one id exactly when the column takes the texts and
every two requests in a row are bridged. -/
theorem one_conversation_iff {cutoff : Option ℕ} {turns : List InferenceJob}
    (hhash : ∀ messages, hash messages ≠ "") (hids : (jobs.map InferenceJob.id).Nodup)
    (hlimit : ((savedRows hash jobs).filter (isUngrouped (s.cutoffAt cutoff))).length ≤ 10000)
    (hnew : Function.Injective s.newV7)
    (hunused : ∀ job ∈ jobs, ∀ id, job.conversationId ≠ some (s.newV7 id))
    (hturns : Turns jobs (s.cutoffAt cutoff) turns) :
    OneConversation (groupSessionsBefore s (savedRows hash jobs) cutoff) turns ↔
      s.conversationColumn = .text ∧
        turns.IsChain (Bridged hash s jobs (s.cutoffAt cutoff)) := by
  have hids' : ((savedRows hash jobs).map JobRow.id).Nodup := by rwa [map_id_savedRows]
  have hunused' : ∀ r ∈ savedRows hash jobs, ∀ id, r.conversationId ≠ some (s.newV7 id) := by
    intro r hr
    obtain ⟨job, hjob, rfl⟩ := List.mem_map.mp hr
    exact hunused job hjob
  have hmem : ∀ t ∈ turns, rowOf hash t ∈ ungroupedRows (savedRows hash jobs) (s.cutoffAt cutoff) :=
    fun t ht => hturns.mem_ungroupedRows hlimit ht
  let origins := fun t => startOf s (savedRows hash jobs) (s.cutoffAt cutoff) (rowOf hash t)
  have hbridged : turns.IsChain (Bridged hash s jobs (s.cutoffAt cutoff)) ↔
      turns.IsChain fun a b => origins a = origins b := by
    refine (KeyChain.isChain_congr_of_isChain hturns.next fun a ha b hb hnext => ?_)
    exact bridged_iff hhash hids hnext (hturns.unhashed b hb) (hmem a ha)
  rw [oneConversation_iff hids hturns.nonempty hmem, hbridged,
    ← KeyChain.exists_common_iff hturns.nonempty]
  refine and_congr_right fun hcol => ?_
  constructor
  · rintro ⟨conv, hconv⟩
    obtain ⟨first, hfirst⟩ := List.exists_mem_of_ne_nil turns hturns.nonempty
    refine ⟨origins first, fun t ht => ?_⟩
    exact startOf_eq_of_text hids' hnew hunused' (hmem t ht) (hmem first hfirst)
      ((hconv t ht).trans (hconv first hfirst).symm)
  · rintro ⟨c, hc⟩
    obtain ⟨first, hfirst⟩ := List.exists_mem_of_ne_nil turns hturns.nonempty
    obtain ⟨conv, hconv⟩ : ∃ conv : Uuid, startText s (origins first) = some conv :=
      exists_startText hcol (rowOf hash first)
    refine ⟨conv, fun t ht => ?_⟩
    have hsame : origins t = origins first := (hc t ht).trans (hc first hfirst).symm
    exact (congrArg (startText s) hsame).trans hconv

/-- A job saved under the hash of an array was sent with that array. -/
theorem messages_of_rowKey (hinj : Function.Injective hash) (hhash : ∀ messages, hash messages ≠ "")
    {apiKeyId accountId : Option Uuid} {messages : List Json} (hown : a.messagesHash = none)
    (h : rowKey (rowOf hash a) = (apiKeyId, accountId, hash messages)) :
    a.apiKeyId = apiKeyId ∧ a.accountId = accountId ∧ a.messages = some (.arr messages) := by
  simp only [rowKey, Prod.mk.injEq] at h
  obtain ⟨hapi, haccount, hfull⟩ := h
  refine ⟨hapi, haccount, ?_⟩
  have hstored : (rowOf hash a).messagesHash =
      (a.messages.bind (computeMessageHashes hash)).map Prod.fst := by
    simp [rowOf, JobRow.ofJob, hown]
  rw [hstored] at hfull
  cases hpair : a.messages.bind (computeMessageHashes hash) with
  | none =>
    rw [hpair] at hfull
    exact absurd hfull.symm (hhash messages)
  | some pair =>
    obtain ⟨json, hjson, hcomputed⟩ := Option.bind_eq_some_iff.mp hpair
    rw [hpair, Option.map_some, Option.getD_some] at hfull
    cases json with
    | arr items =>
      simp only [computeMessageHashes] at hcomputed
      split at hcomputed
      · cases hcomputed
      · cases hcomputed
        rw [hjson, hinj hfull]
    | _ => cases hcomputed

/-- What bridges two requests is a third one, whose array is the earlier one with the reply and
without the next message. -/
theorem sent_of_bridged (hinj : Function.Injective hash) (hhash : ∀ messages, hash messages ≠ "")
    (hown : ∀ job ∈ jobs, job.messagesHash = none) (h : Bridged hash s jobs cutoffAt a b) :
    ∃ job ∈ jobs, job.apiKeyId = b.apiKeyId ∧ job.accountId = b.accountId ∧
      ∃ messages reply user, a.messages = some (.arr messages) ∧
        b.messages = some (.arr (messages ++ [reply, user])) ∧
          job.messages = some (.arr (messages ++ [reply])) := by
  obtain ⟨messages, reply, user, ha, hb, hlead⟩ := h
  have hrow : ∃ row ∈ savedRows hash jobs,
      rowKey row = (b.apiKeyId, b.accountId, hash (messages ++ [reply])) := by
    rcases KeyChain.exists_of_origin hlead with ⟨row, hrow, hk⟩ | hknown
    · have hfetched := List.takeWhile_subset _ (List.mem_reverse.mp hrow)
      exact ⟨row, (of_mem_ungroupedRows hfetched).1, hk⟩
    · obtain ⟨conv, hconv⟩ := Option.isSome_iff_exists.mp hknown
      obtain ⟨row, hrow, -, hk, -⟩ := exists_of_known hconv
      exact ⟨row, hrow, hk⟩
  obtain ⟨row, hmem, hk⟩ := hrow
  obtain ⟨job, hjob, rfl⟩ := List.mem_map.mp hmem
  obtain ⟨hapi, haccount, hmsg⟩ := messages_of_rowKey hinj hhash (hown job hjob) hk
  exact ⟨job, hjob, hapi, haccount, messages, reply, user, ha, hb, hmsg⟩

/-- `submit` saves its jobs without their messages, and no run finds them. -/
theorem groupSessionsBefore_submitted (hown : ∀ job ∈ jobs, job.messagesHash = none)
    (cutoff : Option ℕ) :
    groupSessionsBefore s (savedRows hash (jobs.map jobForDb)) cutoff =
      .ok (0, savedRows hash (jobs.map jobForDb)) := by
  have hnone : ungroupedRows (savedRows hash (jobs.map jobForDb)) (s.cutoffAt cutoff) = [] := by
    refine List.eq_nil_iff_forall_not_mem.mpr fun row hrow => ?_
    obtain ⟨hmem, hungrouped⟩ := of_mem_ungroupedRows hrow
    obtain ⟨saved, hsaved, rfl⟩ := List.mem_map.mp hmem
    obtain ⟨job, hjob, rfl⟩ := List.mem_map.mp hsaved
    have hunhashed : (rowOf hash (jobForDb job)).messagesHash = none := by
      simp [rowOf, JobRow.ofJob, jobForDb, hown job hjob]
    simp [isUngrouped, hunhashed] at hungrouped
  change (if (ungroupedRows _ (s.cutoffAt cutoff)).isEmpty then _ else _) = _
  rw [hnone]
  rfl

end Turns

/-! ## Two short conversations -/

def message (role content : String) : Json := .obj [("role", .str role), ("content", .str content)]

/-- `[hello, hi, bye, ..]`, cut to a length. -/
def dialogue (n : ℕ) : List Json :=
  [message "user" "hello", message "assistant" "hi", message "user" "bye"].take n

def turnJob (id : Uuid) (messages : List Json) (createdAt : Millis) : InferenceJob :=
  newJob id { plainRequest "hello" with messages := some (.arr messages) } ⟨"hello", by decide⟩
    ⟨"m", by decide⟩ createdAt

def firstTurn : InferenceJob := turnJob 1 (dialogue 1) 1000

/-- The first turn with its reply, as a client sends it that has a reply continued. -/
def continued : InferenceJob := turnJob 2 (dialogue 2) 2000

def secondTurn : InferenceJob := turnJob 3 (dialogue 3) 3000

/-- A digest that tells the arrays of one dialogue apart. -/
def lengthDigest (messages : List Json) : String := String.ofList ('#' :: messages.map fun _ => '*')

def utcSetting (column : ColumnType) : Setting where
  conversationColumn := column
  startOfDay := fun day => day * 86400000
  today := 1
  newV7 := (· + 100)

theorem lengthDigest_ne (messages : List Json) : lengthDigest messages ≠ "" := by
  intro h
  have hlist := congrArg String.toList h
  simp [lengthDigest] at hlist

theorem turns_of_dialogue {jobs : List InferenceJob} (hfirst : firstTurn ∈ jobs)
    (hsecond : secondTurn ∈ jobs) : Turns jobs 86400000 [firstTurn, secondTurn] where
  nonempty := by simp
  next := by
    refine .cons_cons ⟨by decide, rfl, rfl, ?_⟩ (.singleton secondTurn)
    exact ⟨dialogue 1, message "assistant" "hi", message "user" "bye", rfl, rfl⟩
  saved := by simp [hfirst, hsecond]
  array := by
    intro t ht
    have h : t = firstTurn ∨ t = secondTurn := by simpa using ht
    rcases h with rfl | rfl
    · exact ⟨_, _, rfl⟩
    · exact ⟨_, _, rfl⟩
  unhashed := by simp [firstTurn, secondTurn, turnJob, newJob]
  ungrouped := by simp [firstTurn, secondTurn, turnJob, newJob, plainRequest]
  early := by simp [firstTurn, secondTurn, turnJob, newJob]

/-- The conversations a run leaves. -/
def conversations (result : Except Error (ℕ × List JobRow)) : List (Uuid × Option Uuid) :=
  match result with
  | .ok (_, table) => table.map fun row => (row.id, row.conversationId)
  | .error _ => []

theorem oneConversation_iff_conversations {result : Except Error (ℕ × List JobRow)}
    {turns : List InferenceJob} (hne : turns ≠ []) :
    OneConversation result turns ↔ ∃ conv, ∀ t ∈ turns, (t.id, some conv) ∈ conversations result := by
  obtain ⟨first, rest, rfl⟩ := List.exists_cons_of_ne_nil hne
  constructor
  · rintro ⟨grouped, table, conv, rfl, h⟩
    refine ⟨conv, fun t ht => ?_⟩
    obtain ⟨row, hrow, hid, hconv⟩ := h t ht
    exact List.mem_map.mpr ⟨row, hrow, by rw [hid, hconv]⟩
  · rintro ⟨conv, h⟩
    cases result with
    | error e => exact absurd (h first List.mem_cons_self) List.not_mem_nil
    | ok r =>
      refine ⟨r.1, r.2, conv, rfl, fun t ht => ?_⟩
      obtain ⟨row, hrow, heq⟩ := List.mem_map.mp (h t ht)
      obtain ⟨hid, hconv⟩ := Prod.mk.inj heq
      exact ⟨row, hrow, hid, hconv⟩

/-- A client that has the reply continued before it goes on keeps its conversation. -/
theorem continued_reply_bridges :
    OneConversation (groupSessionsBefore (utcSetting .text)
      (savedRows lengthDigest [firstTurn, continued, secondTurn]) none) [firstTurn, secondTurn] ∧
    [firstTurn, secondTurn].IsChain (Bridged lengthDigest (utcSetting .text)
      [firstTurn, continued, secondTurn] 86400000) := by
  have hone : OneConversation (groupSessionsBefore (utcSetting .text)
      (savedRows lengthDigest [firstTurn, continued, secondTurn]) none)
      [firstTurn, secondTurn] := by
    refine (oneConversation_iff_conversations (by simp)).mpr ⟨101, ?_⟩
    have hrun : conversations (groupSessionsBefore (utcSetting .text)
        (savedRows lengthDigest [firstTurn, continued, secondTurn]) none) =
          [(1, some 101), (2, some 101), (3, some 101)] := by decide +kernel
    rw [hrun]
    simp [firstTurn, secondTurn, turnJob, newJob]
  refine ⟨hone, ?_⟩
  have hunused : ∀ job ∈ [firstTurn, continued, secondTurn], ∀ id,
      job.conversationId ≠ some ((utcSetting .text).newV7 id) := by
    simp [firstTurn, continued, secondTurn, turnJob, newJob, plainRequest]
  have hiff : OneConversation (groupSessionsBefore (utcSetting .text)
      (savedRows lengthDigest [firstTurn, continued, secondTurn]) none) [firstTurn, secondTurn] ↔ _ :=
    one_conversation_iff lengthDigest_ne (by decide) (by decide +kernel)
      (fun a b h => Nat.add_right_cancel h) hunused (turns_of_dialogue (by simp) (by simp))
  exact (hiff.mp hone).2

theorem dialogue_conversations {hash : List Json → String}
    (hne : hash (dialogue 1) ≠ hash (dialogue 2)) (hhash : hash (dialogue 2) ≠ "") :
    conversations (groupSessionsBefore (utcSetting .text)
      (savedRows hash [firstTurn, secondTurn]) none) = [(1, some 101), (3, some 103)] := by
  have hempty : (hash (dialogue 2)).isEmpty = false := by simpa using hhash
  have hids : ((savedRows hash [firstTurn, secondTurn]).foldl (Batch.handle (· + 100))
      ⟨fun _ => none, []⟩).idsToUpdate = [(1, some 101), (3, some 103)] := by
    have hfirst : (rowOf hash firstTurn).messagesHash = some (hash (dialogue 1)) := rfl
    have hfirst' : (rowOf hash firstTurn).messagesPrefixHash = some "" := rfl
    have hsecond : (rowOf hash secondTurn).messagesHash = some (hash (dialogue 3)) := rfl
    have hsecond' : (rowOf hash secondTurn).messagesPrefixHash = some (hash (dialogue 2)) := rfl
    have hkey : ((none, none, hash (dialogue 2)) : HashKey) ≠ (none, none, hash (dialogue 1)) := by
      simpa using hne.symm
    simp only [savedRows, List.map_cons, List.map_nil, List.foldl_cons, List.foldl_nil,
      Batch.handle, hfirst, hfirst', hsecond, hsecond', hempty]
    change [(1, some 101), (3, match Function.update (fun _ => none)
      ((none, none, hash (dialogue 1)) : HashKey) (some (some 101)) (none, none, hash (dialogue 2))
      with | some conv => conv | none => some 103)] = _
    rw [Function.update_of_ne hkey]
  have hrun : groupSessionsBefore (utcSetting .text) (savedRows hash [firstTurn, secondTurn]) none =
      if ((savedRows hash [firstTurn, secondTurn]).foldl (Batch.handle (· + 100))
        ⟨fun _ => none, []⟩).idsToUpdate.isEmpty then
          .ok (0, savedRows hash [firstTurn, secondTurn])
      else .ok (_, updateConversations ((savedRows hash [firstTurn, secondTurn]).foldl
        (Batch.handle (· + 100)) ⟨fun _ => none, []⟩).idsToUpdate
          (savedRows hash [firstTurn, secondTurn])) := rfl
  rw [hrun, hids]
  rfl

/-- `hello` and, after the reply `hi`, `bye` go to two conversations, whatever digest tells the two
arrays apart. -/
theorem next_turn_starts_over :
    Turns [firstTurn, secondTurn] 86400000 [firstTurn, secondTurn] ∧
    lengthDigest (dialogue 1) ≠ lengthDigest (dialogue 2) ∧
    ¬ ∃ hash column, hash (dialogue 1) ≠ hash (dialogue 2) ∧ hash (dialogue 2) ≠ "" ∧
      OneConversation (groupSessionsBefore (utcSetting column)
        (savedRows hash [firstTurn, secondTurn]) none) [firstTurn, secondTurn] := by
  refine ⟨turns_of_dialogue (by simp) (by simp), by decide, ?_⟩
  rintro ⟨hash, column, hne, hhash, hone⟩
  cases column with
  | text =>
    rw [oneConversation_iff_conversations (by simp), dialogue_conversations hne hhash] at hone
    obtain ⟨conv, h⟩ := hone
    have hfirst : conv = 101 := by simpa [firstTurn, turnJob, newJob] using h firstTurn (by simp)
    have hsecond : conv = 103 := by
      simpa [secondTurn, turnJob, newJob] using h secondTurn (by simp)
    cases hfirst.symm.trans hsecond
  | uuid =>
    have hmem : rowOf hash firstTurn ∈
        ungroupedRows (savedRows hash [firstTurn, secondTurn]) ((utcSetting .uuid).cutoffAt none) :=
      List.mem_cons_self
    have hids : ((savedRows hash [firstTurn, secondTurn]).map JobRow.id).Nodup := by
      rw [map_id_savedRows]
      decide
    rw [groupSessionsBefore_of_mem hids savedRows_hashed hmem] at hone
    obtain ⟨_, _, _, hok, -⟩ := hone
    cases hok

end SessionGrouping

end Veronex
