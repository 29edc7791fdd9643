import Veronex.Inference.Invariants
import Veronex.Inference.ThinkFilter

/-! # What a worker has read of its stream

An execution of `run_job` in worlds that are arbitrary before each step, with the items it has
polled from the provider's stream. `Consumed` says where the tokens it has taken in have led: the
text of the filter, the token log and the tool calls. `consumed_of_end`: a worker that has polled
the end of its stream, or an error of it, has taken in every token before that.
-/
namespace Veronex
open Concurrency
set_option autoImplicit false

/-! ## Reading -/

/-- `None` is the end of the stream. -/
abbrev StreamItem := Option (Except String StreamToken)

/-- What a step polls. -/
def Worker.polled (w : World) (v : Worker) (choice : Choice) : List StreamItem :=
  match v.pc, choice with
  | .select, .item item => if w.permit v.cancelNotify then [] else [item]
  | _, _ => []

/-- A worker with the items it has polled so far. -/
abbrev Reading := List StreamItem × Worker

def Worker.pollStep (s : Reading) (a : World × Choice) : Option Reading :=
  (s.2.step a.1 a.2).map fun m => (s.1 ++ s.2.polled a.1 a.2, m.next)

/-- The executions of the block that the dispatcher spawns with these arguments. -/
def Reads (args : RunArgs) : Reading → Prop :=
  Run Worker.pollStep (fun _ _ => True) ([], Worker.start args)

def items (xs : List StreamToken) : List StreamItem := xs.map fun t => some (.ok t)

/-- The end of a stream, or an error of it. -/
def EndsStream (last : StreamItem) : Prop := ∀ t, last ≠ some (.ok t)

theorem items_concat (xs : List StreamToken) (t : StreamToken) :
    items (xs ++ [t]) = items xs ++ [some (.ok t)] := by
  simp [items]

theorem items_injective : Function.Injective items := by
  refine List.map_injective_iff.mpr fun t t' h => ?_
  exact Except.ok.inj (Option.some.inj h)

theorem items_ne {xs ys : List StreamToken} {last : StreamItem} (hlast : EndsStream last) :
    items xs ++ [last] ≠ items ys := by
  intro h
  have hmem : last ∈ items ys := by
    rw [← h]
    exact List.mem_append_right _ (List.mem_singleton_self _)
  obtain ⟨t, -, rfl⟩ := List.mem_map.mp hmem
  exact hlast t rfl

/-! ## What has been taken in -/

def streamText (xs : List StreamToken) : List Char := xs.flatMap fun t => t.value.toList

/-- What a token adds to what the text before it shows. -/
def added (before : List Char) (t : StreamToken) : String :=
  .ofList ((shownText (thinkScan (before ++ t.value.toList))).drop
    (shownText (thinkScan before)).length)

/-- The log of a stream after this text. -/
def logOf (before : List Char) : List StreamToken → List StreamToken
  | [] => []
  | t :: xs => Worker.pushed { t with value := added before t } ++ logOf (before ++ t.value.toList) xs

structure Consumed (xs : List StreamToken) (v : Worker) : Prop where
  filters : Filters (streamText xs) v.ts.text v.ts
  text : streamText v.log = v.ts.text
  log : ∃ lead, v.log = lead ++ logOf [] xs ∧ ∀ t ∈ lead, t = .phaseBoundary
  toolCalls : v.ts.toolCalls = xs.foldl (fun calls t => Worker.addToolCalls calls t.toolCalls) []

@[simp] theorem streamText_append (xs ys : List StreamToken) :
    streamText (xs ++ ys) = streamText xs ++ streamText ys :=
  List.flatMap_append

theorem streamText_boundary {lead : List StreamToken} (h : ∀ t ∈ lead, t = .phaseBoundary) :
    streamText lead = [] := by
  rw [streamText, List.flatMap_eq_nil_iff]
  intro t ht
  rw [h t ht]
  rfl

theorem streamText_pushed (t : StreamToken) : streamText (Worker.pushed t) = t.value.toList := by
  unfold Worker.pushed
  split <;> simp [streamText, StreamToken.text, StreamToken.done]

theorem streamText_concat (xs : List StreamToken) (t : StreamToken) :
    streamText (xs ++ [t]) = streamText xs ++ t.value.toList := by
  simp [streamText]

theorem logOf_append (before : List Char) (xs ys : List StreamToken) :
    logOf before (xs ++ ys) = logOf before xs ++ logOf (before ++ streamText xs) ys := by
  induction xs generalizing before with
  | nil => simp [logOf, streamText]
  | cons t xs ih => simp [logOf, streamText, ih]

section Consume
variable {ts ts' : TokenStreamState} {text : List Char} {token token' : StreamToken}
  {now startedAt : Millis}

/-- What the rest of `consume` makes of the filtered text. -/
theorem consume_cases (hc : Worker.consume ts token now startedAt = some (token', ts')) :
    ∃ emitted ts₁, (if token.value = "" then some ([], ts)
        else ts.consumeText token.value.toList) = some (emitted, ts₁) ∧
      token' = { token with value := .ofList emitted } ∧ ts'.text = ts₁.text ++ emitted ∧
      ts'.thinkBuf = ts₁.thinkBuf ∧ ts'.inThink = ts₁.inThink ∧
      ts'.toolCalls = Worker.addToolCalls ts₁.toolCalls token.toolCalls := by
  unfold Worker.consume at hc
  by_cases hempty : token.value = ""
  · simp only [hempty, if_true] at hc ⊢
    obtain ⟨rfl, rfl⟩ := Prod.mk.inj (Option.some.inj hc)
    refine ⟨[], ts, rfl, rfl, ?_⟩
    repeat' split
    all_goals exact ⟨rfl, rfl, rfl, rfl⟩
  · simp only [hempty, if_false] at hc ⊢
    obtain ⟨⟨emitted, ts₁⟩, hfed, hc⟩ := Option.bind_eq_some_iff.mp hc
    obtain ⟨rfl, rfl⟩ := Prod.mk.inj (Option.some.inj hc)
    refine ⟨emitted, ts₁, hfed, rfl, ?_⟩
    repeat' split
    all_goals exact ⟨rfl, rfl, rfl, rfl⟩

/-- A token is filtered by what the text before it leaves open. -/
theorem consume_spec (h : Filters text ts.text ts)
    (hc : Worker.consume ts token now startedAt = some (token', ts')) :
    token' = { token with value := added text token } ∧
      Filters (text ++ token.value.toList) ts'.text ts' ∧
      ts'.text = ts.text ++ token'.value.toList ∧
      ts'.toolCalls = Worker.addToolCalls ts.toolCalls token.toolCalls := by
  obtain ⟨emitted, ts₁, hfed, rfl, hemitted, hbuf, hmode, htools⟩ := consume_cases hc
  have hnext : Filters (text ++ token.value.toList) (ts.text ++ emitted) ts₁ ∧
      ts₁.text = ts.text ∧ ts₁.toolCalls = ts.toolCalls := by
    split at hfed
    · next hempty =>
      obtain ⟨rfl, rfl⟩ := Prod.mk.inj (Option.some.inj hfed)
      rw [hempty]
      simpa using h
    · refine ⟨(TokenStreamState.consumeText_eq_some h hfed).2, ?_⟩
      obtain ⟨r, -, heq⟩ := Option.map_eq_some_iff.mp hfed
      obtain ⟨-, rfl⟩ := Prod.mk.inj heq
      exact ⟨rfl, rfl⟩
  obtain ⟨hfilters, htext, hcalls⟩ := hnext
  have hadded : added text token = .ofList emitted := by
    rw [added, ← TokenStreamState.shown_of_filters hfilters, ← TokenStreamState.shown_of_filters h,
      List.drop_left]
  refine ⟨by rw [hadded], ⟨?_, ?_⟩, ?_, ?_⟩
  · rw [hmode]
    exact hfilters.mode
  · rw [hbuf, hemitted, htext]
    exact hfilters.tracks
  · rw [hemitted, htext, String.toList_ofList]
  · rw [htools, hcalls]

theorem consume_isSome (h : Filters text ts.text ts)
    (haligned : Aligned (thinkScan (text ++ token.value.toList))) :
    (Worker.consume ts token now startedAt).isSome = true := by
  unfold Worker.consume
  by_cases hempty : token.value = ""
  · simp only [hempty, if_true]
    rfl
  · simp only [hempty, if_false]
    cases hfed : ts.consumeText token.value.toList with
    | none => exact absurd haligned (TokenStreamState.consumeText_eq_none h hfed)
    | some r => rfl

end Consume

/-! ## Phases -/

/-- Where a worker is with its stream. -/
inductive StreamPhase
  | before
  | between
  | received (result : Except String StreamToken)
  | after

def WorkerPc.phase : WorkerPc → StreamPhase
  | .spawned | .setup | .counters | .counterPending | .counterRunning | .lifecycle | .boundary
  | .notify _ .boundary | .capture => .before
  | .select | .refreshOwner | .notify _ .token => .between
  | .received result => .received result
  | _ => .after

/-- What the items that were polled have led to. -/
def Reading.Sound (s : Reading) : Prop :=
  match s.2.pc.phase with
  | .before => s.1 = [] ∧ ∀ t ∈ s.2.log, t = .phaseBoundary
  | .between => ∃ xs, s.1 = items xs ∧ Consumed xs s.2
  | .received result => ∃ xs, s.1 = items xs ++ [some result] ∧ Consumed xs s.2
  | .after =>
    (∃ xs last, s.1 = items xs ++ [last] ∧ EndsStream last ∧ Consumed xs s.2) ∨
      ∃ xs, s.1 = items xs

section Step
variable {w : World} {v : Worker} {choice : Choice} {m : Moved Worker} {xs : List StreamToken}

/-- After the loop neither the text nor the log changes. -/
theorem stream_after (h : v.step w choice = some m) (hpc : v.pc.phase = .after) :
    m.next.pc.phase = .after ∧ m.next.ts = v.ts ∧ m.next.log = v.log := by
  obtain ⟨args, job, stop, apiKeyId, tpmMinute, startedAt, cancelNotify, ts, log, pc⟩ := v
  cases pc
  case persist site pc =>
    obtain rfl := Option.some.inj h
    have hafter : (Worker.afterPersist site).phase = .after := by cases site <;> rfl
    cases pc with
    | compareExchange flag =>
      simp only [Worker.persistStep]
      repeat' split
      all_goals exact ⟨by first | exact hafter | rfl, rfl, rfl⟩
    | get => exact ⟨rfl, rfl, rfl⟩
    | put turns => exact ⟨hafter, rfl, rfl⟩
  case final completedAt pc =>
    obtain rfl := Option.some.inj h
    cases pc <;> simp only [Worker.finalStep] <;> repeat' split
    all_goals exact ⟨rfl, rfl, rfl⟩
  case block exit pc =>
    obtain rfl := Option.some.inj h
    cases pc <;> exact ⟨rfl, rfl, rfl⟩
  case notify cell site =>
    obtain rfl := Option.some.inj h
    cases site <;> first
      | exact ⟨rfl, rfl, rfl⟩
      | cases hpc
  case spawned | setup | counters | counterPending | counterRunning | lifecycle => cases hpc
  case boundary | capture | select | received | refreshOwner => cases hpc
  all_goals simp only [Worker.step] at h
  all_goals repeat' (split at h)
  all_goals first
    | (obtain rfl := Option.some.inj h; exact ⟨rfl, rfl, rfl⟩)
    | cases h

/-- Until the stream starts nothing but the boundary is logged. -/
theorem stream_before (h : v.step w choice = some m) (hpc : v.pc.phase = .before)
    (hlog : ∀ t ∈ v.log, t = .phaseBoundary) : Reading.Sound ([], m.next) := by
  have hstart : ∀ log, (∀ t ∈ log, t = StreamToken.phaseBoundary) → ∀ u : Worker, u.log = log →
      u.ts = .default w.now → u.pc = .select → Reading.Sound ([], u) := by
    intro log hlog u hu hts hselect
    rw [Reading.Sound]
    dsimp only
    rw [hselect]
    refine ⟨[], rfl, ?_, ?_, ⟨log, ?_, hlog⟩, ?_⟩
    · rw [hts]
      exact TokenStreamState.filters_default w.now
    · rw [hu, hts, streamText_boundary hlog]
      rfl
    · rw [hu, logOf, List.append_nil]
    · rw [hts]
      rfl
  obtain ⟨args, job, stop, apiKeyId, tpmMinute, startedAt, cancelNotify, ts, log, pc⟩ := v
  cases pc
  case capture =>
    simp only [Worker.step] at h
    split at h
    all_goals
      obtain rfl := Option.some.inj h
      exact hstart log hlog _ rfl rfl rfl
  case boundary =>
    simp only [Worker.step] at h
    split at h
    · obtain rfl := Option.some.inj h
      exact ⟨rfl, hlog⟩
    · obtain rfl := Option.some.inj h
      refine ⟨rfl, fun t ht => ?_⟩
      rcases List.mem_append.mp ht with ht | ht
      · exact hlog t ht
      · exact List.mem_singleton.mp ht
  case notify cell site =>
    cases site <;> first
      | (obtain rfl := Option.some.inj h; exact ⟨rfl, hlog⟩)
      | cases hpc
  case spawned | setup | counters | counterPending | counterRunning | lifecycle =>
    simp only [Worker.step] at h
    repeat' (split at h)
    all_goals first
      | (obtain rfl := Option.some.inj h; exact ⟨rfl, hlog⟩)
      | (obtain rfl := Option.some.inj h; exact .inr ⟨[], rfl⟩)
      | cases h
  all_goals cases hpc

theorem Consumed.same {v v' : Worker} (h : Consumed xs v) (hts : v'.ts.text = v.ts.text)
    (hbuf : v'.ts.thinkBuf = v.ts.thinkBuf) (hmode : v'.ts.inThink = v.ts.inThink)
    (hcalls : v'.ts.toolCalls = v.ts.toolCalls) (hlog : v'.log = v.log) : Consumed xs v' := by
  refine ⟨⟨?_, ?_⟩, ?_, ?_, ?_⟩
  · rw [hmode]
    exact h.filters.mode
  · rw [hts, hbuf]
    exact h.filters.tracks
  · rw [hlog, hts]
    exact h.text
  · rw [hlog]
    exact h.log
  · rw [hcalls]
    exact h.toolCalls

theorem polled_of_permit (hpc : v.pc = .select) (hpermit : w.permit v.cancelNotify = true) :
    v.polled w choice = [] := by
  unfold Worker.polled
  rw [hpc]
  cases choice with
  | item item => exact if_pos hpermit
  | _ => rfl

theorem polled_item (hpc : v.pc = .select) (hpermit : ¬ w.permit v.cancelNotify = true)
    (item : StreamItem) : v.polled w (.item item) = [item] := by
  unfold Worker.polled
  rw [hpc]
  exact if_neg hpermit

theorem polled_quiet (hpc : v.pc ≠ .select) : v.polled w choice = [] := by
  unfold Worker.polled
  split
  · exact absurd ‹_› hpc
  · rfl

/-- The stream is polled between two items only. -/
theorem polled_of_phase (hphase : v.pc.phase ≠ .between) : v.polled w choice = [] := by
  refine polled_quiet fun hpc => hphase ?_
  rw [hpc]
  rfl

theorem stream_select (h : v.step w choice = some m) (hpc : v.pc = .select) (hv : Consumed xs v) :
    Reading.Sound (items xs ++ v.polled w choice, m.next) := by
  simp only [Worker.step, hpc] at h
  split at h
  · next hpermit =>
    -- the signal is polled first: the stream is dropped
    obtain rfl := Option.some.inj h
    rw [polled_of_permit hpc hpermit, List.append_nil]
    exact .inr ⟨xs, rfl⟩
  · next hpermit =>
    split at h
    · obtain rfl := Option.some.inj h
      rw [polled_item hpc hpermit]
      exact .inl ⟨xs, none, rfl, by rintro _ ⟨⟩, hv.same rfl rfl rfl rfl rfl⟩
    · obtain rfl := Option.some.inj h
      rw [polled_item hpc hpermit]
      exact ⟨xs, rfl, hv.same rfl rfl rfl rfl rfl⟩
    · cases h

/-- Between two items. -/
theorem stream_between (h : v.step w choice = some m) (hpc : v.pc.phase = .between)
    (hselect : v.pc ≠ .select) (hv : Consumed xs v) : Reading.Sound (items xs, m.next) := by
  obtain ⟨args, job, stop, apiKeyId, tpmMinute, startedAt, cancelNotify, ts, log, pc⟩ := v
  cases pc
  case select => exact absurd rfl hselect
  case refreshOwner =>
    simp only [Worker.step] at h
    split at h
    all_goals
      obtain rfl := Option.some.inj h
      exact ⟨xs, rfl, hv.same rfl rfl rfl rfl rfl⟩
  case notify cell site =>
    cases site <;> first
      | (obtain rfl := Option.some.inj h; exact ⟨xs, rfl, hv.same rfl rfl rfl rfl rfl⟩)
      | cases hpc
  all_goals cases hpc

theorem Consumed.push {v v' : Worker} {token token' : StreamToken} (hv : Consumed xs v)
    (hc : Worker.consume v.ts token w.now v.startedAt = some (token', v'.ts))
    (hlog : v'.log = v.log ++ Worker.pushed token') : Consumed (xs ++ [token]) v' := by
  obtain ⟨htoken, hfilters, htext, hcalls⟩ := consume_spec hv.filters hc
  refine ⟨?_, ?_, ?_, ?_⟩
  · rw [streamText_concat]
    exact hfilters
  · rw [hlog, streamText_append, streamText_pushed, hv.text, htext]
  · obtain ⟨lead, hlead, hboundary⟩ := hv.log
    refine ⟨lead, ?_, hboundary⟩
    rw [hlog, hlead, logOf_append, List.append_assoc, htoken]
    simp [logOf]
  · rw [hcalls, hv.toolCalls, List.foldl_concat]

/-- An item is taken in, unless the entry is gone, cancelled or full. -/
theorem stream_received {result : Except String StreamToken} (h : v.step w choice = some m)
    (hpc : v.pc = .received result) (hv : Consumed xs v) :
    Reading.Sound (items xs ++ [some result], m.next) := by
  have hdropped : ∀ u : Worker, u.pc.phase = .after → u.ts = v.ts → u.log = v.log →
      Reading.Sound (items xs ++ [some result], u) := by
    intro u hphase hts hlog
    rw [Reading.Sound]
    dsimp only
    rw [hphase]
    cases result with
    | error message =>
      refine .inl ⟨xs, some (.error message), rfl, by rintro _ ⟨⟩, ?_⟩
      exact hv.same (by rw [hts]) (by rw [hts]) (by rw [hts]) (by rw [hts]) hlog
    | ok token => exact .inr ⟨xs ++ [token], (items_concat xs token).symm⟩
  have hstep : m = v.receiveStep w result := by
    simp only [Worker.step, hpc] at h
    exact (Option.some.inj h).symm
  subst hstep
  unfold Worker.receiveStep
  split
  · exact hdropped _ rfl rfl rfl
  · split
    · exact hdropped _ rfl rfl rfl
    · cases result with
      | error message => exact hdropped _ rfl rfl rfl
      | ok token =>
        dsimp only
        cases hconsume : Worker.consume v.ts token w.now v.startedAt with
        | none => exact hdropped _ rfl rfl rfl
        | some r =>
          obtain ⟨token', ts⟩ := r
          dsimp only
          split
          · exact .inr ⟨xs ++ [token], (items_concat xs token).symm⟩
          · exact ⟨xs ++ [token], (items_concat xs token).symm, hv.push hconsume rfl⟩

end Step

theorem reads_sound {args : RunArgs} {s : Reading} (h : Reads args s) : s.Sound := by
  refine h.invariant ⟨rfl, by rintro _ ⟨⟩⟩ ?_
  rintro ⟨is, v⟩ s' ⟨w, choice⟩ _ hs _ hstep
  obtain ⟨m, hm, rfl⟩ := Option.map_eq_some_iff.mp hstep
  rw [Reading.Sound] at hs
  dsimp only at hs hm ⊢
  cases hphase : v.pc.phase with
  | before =>
    rw [hphase] at hs
    obtain ⟨rfl, hlog⟩ := hs
    rw [polled_of_phase (by rw [hphase]; rintro ⟨⟩)]
    exact stream_before hm hphase hlog
  | between =>
    rw [hphase] at hs
    obtain ⟨xs, rfl, hv⟩ := hs
    by_cases hpc : v.pc = .select
    · exact stream_select hm hpc hv
    · rw [polled_quiet hpc, List.append_nil]
      exact stream_between hm hphase hpc hv
  | received result =>
    rw [hphase] at hs
    obtain ⟨xs, rfl, hv⟩ := hs
    have hpc : v.pc = .received result := by
      revert hphase
      cases v.pc with
      | received => exact fun hphase => congrArg _ (StreamPhase.received.inj hphase)
      | notify cell site => cases site <;> rintro ⟨⟩
      | _ => rintro ⟨⟩
    rw [polled_of_phase (by rw [hphase]; rintro ⟨⟩), List.append_nil]
    exact stream_received hm hpc hv
  | after =>
    rw [hphase] at hs
    obtain ⟨hnext, hts, hlog⟩ := stream_after hm hphase
    rw [polled_of_phase (by rw [hphase]; rintro ⟨⟩), List.append_nil, Reading.Sound]
    dsimp only
    rw [hnext]
    rcases hs with ⟨xs, last, rfl, hlast, hv⟩ | ⟨xs, rfl⟩
    · refine .inl ⟨xs, last, rfl, hlast, ?_⟩
      exact hv.same (by rw [hts]) (by rw [hts]) (by rw [hts]) (by rw [hts]) hlog
    · exact .inr ⟨xs, rfl⟩

/-- Who has polled the end of its stream has taken in all of it. -/
theorem consumed_of_end {args : RunArgs} {xs : List StreamToken} {last : StreamItem} {v : Worker}
    (h : Reads args (items xs ++ [last], v)) (hlast : EndsStream last) : Consumed xs v := by
  have hsound := reads_sound h
  rw [Reading.Sound] at hsound
  dsimp only at hsound
  have hwhole : ∀ {ys last'}, items xs ++ [last] = items ys ++ [last'] → xs = ys := by
    intro ys last' hsame
    exact items_injective (List.append_inj_left' hsame rfl)
  cases hphase : v.pc.phase with
  | before =>
    rw [hphase] at hsound
    exact absurd hsound.1 (by simp)
  | between =>
    rw [hphase] at hsound
    obtain ⟨ys, hsame, -⟩ := hsound
    exact absurd hsame (items_ne hlast)
  | received result =>
    rw [hphase] at hsound
    obtain ⟨ys, hsame, hv⟩ := hsound
    rwa [hwhole hsame]
  | after =>
    rw [hphase] at hsound
    rcases hsound with ⟨ys, last', hsame, -, hv⟩ | ⟨ys, hsame⟩
    · rwa [hwhole hsame]
    · exact absurd hsame (items_ne hlast)

/-! ## Streams that are read to their end -/

section Whole
variable {args : RunArgs} {is : List StreamItem} {v : Worker} {w : World} {e : JobEntry}

theorem Reads.step {choice : Choice} {m : Moved Worker} (h : Reads args (is, v))
    (hm : v.step w choice = some m) : Reads args (is ++ v.polled w choice, m.next) :=
  h.snoc (a := (w, choice)) trivial (Option.map_eq_some_iff.mpr ⟨m, hm, rfl⟩)

/-- A world in which the worker finds its entry open, with room, and no signal. -/
structure Hosts (w : World) (args : RunArgs) (e : JobEntry) : Prop where
  entry : w.jobs args.inst args.uuid = some e
  isOpen : e.status ≠ .cancelled
  room : e.tokens.length ≤ MAX_TOKENS_PER_JOB
  quiet : ∀ cell, w.permit cell = false
  skips : w.lifecyclePhase args.inst = false

/-- A step outside the poll. -/
theorem Reads.goes (w : World) (choice : Choice) (pc : WorkerPc) (h : Reads args (is, v))
    (hargs : v.args = args) (hpc : v.pc ≠ .select)
    (hm : ∃ m, v.step w choice = some m ∧ m.next.pc = pc) :
    ∃ v', Reads args (is, v') ∧ v'.pc = pc ∧ v'.args = args := by
  obtain ⟨m, hm, hnext⟩ := hm
  have hread := h.step hm
  rw [polled_quiet hpc, List.append_nil] at hread
  exact ⟨m.next, hread, hnext, (step_args hm).trans hargs⟩

theorem reads_start (hw : Hosts w args e) :
    ∃ v, Reads args ([], v) ∧ v.pc = .select ∧ v.args = args := by
  have hstart : Reads args ([], Worker.start args) := .refl _
  obtain ⟨v, hv, hpc, hargs⟩ := hstart.goes w .go _ rfl (by rintro ⟨⟩) ⟨_, rfl, rfl⟩
  have hfound : w.jobs v.inst v.uuid = some e := by
    rw [Worker.inst, Worker.uuid, hargs]
    exact hw.entry
  obtain ⟨v, hv, hpc, hargs⟩ := hv.goes w .go .counters hargs
    (by rw [hpc]; rintro ⟨⟩) (by simp [Worker.step, hpc, hfound, hw.isOpen])
  obtain ⟨v, hv, hpc, hargs⟩ := hv.goes w .pendingFirst .counterRunning
    hargs (by rw [hpc]; rintro ⟨⟩) (by simp [Worker.step, hpc, Worker.goto])
  obtain ⟨v, hv, hpc, hargs⟩ := hv.goes w .go .lifecycle hargs
    (by rw [hpc]; rintro ⟨⟩) (by simp [Worker.step, hpc, Worker.goto])
  have hskips : w.lifecyclePhase v.inst = false := by
    rw [Worker.inst, hargs]
    exact hw.skips
  obtain ⟨v, hv, hpc, hargs⟩ := hv.goes w .go .capture hargs
    (by rw [hpc]; rintro ⟨⟩) (by simp [Worker.step, hpc, Worker.goto, hskips])
  have hfound : w.jobs v.inst v.uuid = some e := by
    rw [Worker.inst, Worker.uuid, hargs]
    exact hw.entry
  exact hv.goes w .go _ hargs (by rw [hpc]; rintro ⟨⟩)
    (by simp [Worker.step, hpc, hfound])

theorem reads_token (hw : Hosts w args e) (h : Reads args (is, v)) (hpc : v.pc = .select)
    (hargs : v.args = args) {t : StreamToken}
    (hc : (Worker.consume v.ts t w.now v.startedAt).isSome = true) :
    ∃ v', Reads args (is ++ [some (.ok t)], v') ∧ v'.pc = .select ∧ v'.args = args := by
  have hpermit : ¬ w.permit v.cancelNotify = true := by simp [hw.quiet]
  have hpoll : v.step w (.item (some (.ok t))) =
      some { access := .read, next := v.goto (.received (.ok t)) } := by
    simp [Worker.step, hpc, hw.quiet]
  have hread := h.step hpoll
  rw [polled_item hpc hpermit] at hread
  obtain ⟨⟨t', ts⟩, hconsume⟩ := Option.isSome_iff_exists.mp hc
  have hfound : w.jobs v.inst v.uuid = some e := by
    rw [Worker.inst, Worker.uuid, hargs]
    exact hw.entry
  obtain ⟨v', hv', hpc', hargs'⟩ := hread.goes w .go (.notify e.notify .token)
    hargs (by rintro ⟨⟩) (by
      have hroom : ¬ MAX_TOKENS_PER_JOB < e.tokens.length := Nat.not_lt.mpr hw.room
      have hfound' : w.jobs (v.goto (.received (.ok t))).inst (v.goto (.received (.ok t))).uuid =
          some e := hfound
      have hconsume' : Worker.consume (v.goto (.received (.ok t))).ts t w.now
          (v.goto (.received (.ok t))).startedAt = some (t', ts) := hconsume
      refine ⟨_, rfl, ?_⟩
      simp only [Worker.goto] at hfound' hconsume' ⊢
      simp only [Worker.receiveStep, hfound', hw.isOpen, hconsume', hroom, if_false])
  obtain ⟨v', hv', hpc', hargs'⟩ := hv'.goes w .go .refreshOwner hargs'
    (by rw [hpc']; rintro ⟨⟩) (by simp [Worker.step, hpc', Worker.goto, Worker.afterNotify])
  refine hv'.goes w .go _ hargs' (by rw [hpc']; rintro ⟨⟩) ?_
  simp only [Worker.step, hpc']
  split
  · exact ⟨_, rfl, rfl⟩
  · exact ⟨_, rfl, rfl⟩

/-- A stream that never leaves a block unaligned can be read to its end. -/
theorem reads_whole (hw : Hosts w args e) (xs : List StreamToken)
    (haligned : ∀ before, before <+: xs → Aligned (thinkScan (streamText before))) :
    ∃ v, Reads args (items xs ++ [none], v) := by
  have hloop : ∃ v, Reads args (items xs, v) ∧ v.pc = .select ∧ v.args = args := by
    induction xs using List.reverseRecOn with
    | nil => exact reads_start hw
    | append_singleton xs t ih =>
      obtain ⟨v, hv, hpc, hargs⟩ := ih fun before hbefore =>
        haligned before (hbefore.trans (List.prefix_append _ _))
      have hsound := reads_sound hv
      rw [Reading.Sound] at hsound
      dsimp only at hsound
      rw [hpc] at hsound
      obtain ⟨ys, hsame, hconsumed⟩ := hsound
      obtain rfl := items_injective hsame
      rw [items_concat]
      refine reads_token hw hv hpc hargs (consume_isSome hconsumed.filters ?_)
      rw [← streamText_concat]
      exact haligned _ (List.prefix_refl _)
  obtain ⟨v, hv, hpc, hargs⟩ := hloop
  have hpermit : ¬ w.permit v.cancelNotify = true := by simp [hw.quiet]
  have hend : v.step w (.item none) = some { access := .read, next := v.goto .finalEntry } := by
    simp [Worker.step, hpc, hw.quiet]
  have hread := hv.step hend
  rw [polled_item hpc hpermit] at hread
  exact ⟨_, hread⟩

/-- A job that is handed to a worker of instance 0. -/
def handedArgs : RunArgs :=
  { inst := 0, uuid := 0, providerId := 1, isFreeTier := true
    job := newJob 0 (plainRequest "hi") ⟨"hi", by decide⟩ ⟨"m", m_ne_empty⟩ 0 }

def handedEntry : JobEntry :=
  let cell : Cell := { role := .stop, inst := 0, job := 0, serial := 0 }
  { job := handedArgs.job, status := .pending, tokens := [], done := false, apiKeyId := none
    notify := cell, cancelNotify := cell, geminiTier := none, keyTier := none
    tpmReservationMinute := none, assignedProviderId := none, visionAnalysis := none
    persistedToS3 := cell }

theorem reads_handed (xs : List StreamToken)
    (haligned : ∀ before ∈ xs.inits, Aligned (thinkScan (streamText before))) :
    ∃ v, Reads handedArgs (items xs ++ [none], v) := by
  have hosts : Hosts { World.init twoInstances with jobs := fun _ _ => some handedEntry } handedArgs
      handedEntry := ⟨rfl, by decide, by decide, fun _ => rfl, rfl⟩
  exact reads_whole hosts xs fun before hbefore => haligned before ((List.mem_inits _ _).mpr hbefore)

end Whole

end Veronex
