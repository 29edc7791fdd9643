import Veronex.Mcp.Weather

/-! # Fetches of one grid cell

The leaders go through the map, so that one of them fetches at a time and every follower waits for
it. Two things break that: a grace-period refresh, which does not look at the map, and a leader that
is dropped, whose entry nobody removes (`abandoned_forever`). In runs without either at most one fetch
is in flight and nobody waits for one that has ended: `fetches_coalesced`.
-/
namespace Veronex.Weather
set_option autoImplicit false

open Concurrency

/-! ## What a step does -/

/-- The `do_fetch` the task is in, also before its first poll. -/
def Task.fetching? : Task → Option Role
  | .spawned => some .refresh
  | .checkRateLimit role | .fetchRaw role | .valkeySetRaw role _ => some role
  | _ => none

/-- The upstream fetch is in flight. -/
def Task.isUpstream : Task → Bool
  | .fetchRaw _ => true
  | _ => false

/-- The step takes the grace branch. -/
def Task.Bypasses (t : Task) (c : Cell) (reply : Reply) : Prop :=
  t = .called ∧ reply = .polled ∧ c.inGrace = true

/-- The step finds the caches empty and comes to the map. -/
def Task.Enters (t : Task) (valkey : Bool) (c : Cell) (reply : Reply) : Prop :=
  (t = .called ∧ reply = .polled ∧ c.fresh = false ∧ c.inGrace = false ∧ valkey = false) ∨
    (t = .valkeyGetRaw ∧ reply = .found false)

/-- What the map, the channels and the tasks can go through in one step. -/
inductive Moves (valkey : Bool) (c : Cell) (received : Chan → Bool) (t : Task) (reply : Reply) :
    Cell → Task → List Task → Prop
  | returns (l1 : Option RawEntry) (result : Option (Except String RawEntry))
      (ht : t.fetching? = none ∨ t.fetching? = some .refresh) :
      Moves valkey c received t reply { c with l1 } (.ended result) []
  | bypasses (result : Option (Except String RawEntry)) (h : t.Bypasses c reply) :
      Moves valkey c received t reply c (.ended result) [.spawned]
  | misses (ht : t = .called) : Moves valkey c received t reply c .valkeyGetRaw []
  | opens (h : t.Enters valkey c reply) (hempty : c.inflight = none) {t' : Task}
      (ht' : t'.fetching? = some (.leader c.channels)) :
      Moves valkey c received t reply
        { c with inflight := some c.channels, value := Function.update c.value c.channels false
                 channels := c.channels + 1 } t' []
  | joins (h : t.Enters valkey c reply) {tx : Chan} (htx : c.inflight = some tx)
      (hvalue : c.value tx = false) : Moves valkey c received t reply c (.waitFor tx) []
  | goes {role : Role} (ht : t.fetching? = some role) {t' : Task}
      (ht' : t'.fetching? = some role) : Moves valkey c received t reply c t' []
  | leaves (l1 : Option RawEntry) (result : Option (Except String RawEntry)) {tx : Chan}
      (ht : t.fetching? = some (.leader tx)) :
      Moves valkey c received t reply
        { c with l1, inflight := none
                 value := if received tx then Function.update c.value tx true else c.value }
        (.ended result) []

section Step
variable {valkey : Bool} {c c' : Cell} {received : Chan → Bool} {t t' : Task} {reply : Reply}
  {new : List Task}

theorem Task.Enters.fetching (h : t.Enters valkey c reply) : t.fetching? = none := by
  rcases h with ⟨rfl, -⟩ | ⟨rfl, -⟩ <;> rfl

theorem gate_moves (h : t.Enters valkey c reply) :
    Moves valkey c received t reply (c.gate valkey).1 (c.gate valkey).2 [] := by
  unfold Cell.gate
  cases hinflight : c.inflight with
  | none =>
    refine .opens h hinflight ?_
    dsimp only
    split <;> rfl
  | some tx =>
    dsimp only
    split
    · exact .returns c.l1 _ (.inl h.fetching)
    · next hvalue => exact .joins h hinflight (by simpa using hvalue)

theorem finish_moves (l1 : Option RawEntry) (result : Except String RawEntry) {role : Role}
    (ht : t.fetching? = some role) :
    Moves valkey c received t reply ({ c with l1 }.finish received result role).1
      ({ c with l1 }.finish received result role).2 [] := by
  cases role with
  | leader tx => exact .leaves l1 _ ht
  | refresh => exact .returns l1 _ (.inr ht)

theorem step_moves (h : t.step valkey c received reply = some (c', t', new)) :
    Moves valkey c received t reply c' t' new := by
  cases t with
  | called =>
    cases reply with
    | polled =>
      simp only [Task.step] at h
      split at h
      · cases h
        exact .returns c.l1 _ (.inl rfl)
      · next hfresh =>
        split at h
        · next hgrace =>
          cases h
          exact .bypasses _ ⟨rfl, rfl, hgrace⟩
        · next hgrace =>
          split at h
          · cases h
            exact .misses rfl
          · next hvalkey =>
            cases h
            have henters : Task.called.Enters valkey c .polled :=
              .inl ⟨rfl, rfl, by simpa using hfresh, by simpa using hgrace, by simpa using hvalkey⟩
            exact gate_moves henters
    | found | allowed | fetched | stored => cases h
  | spawned =>
    cases reply with
    | polled =>
      cases h
      exact .goes rfl (by split <;> rfl)
    | found | allowed | fetched | stored => cases h
  | valkeyGetRaw =>
    cases reply with
    | found hit =>
      cases hit with
      | true =>
        cases h
        exact .returns _ _ (.inl rfl)
      | false =>
        cases h
        exact gate_moves (.inr ⟨rfl, rfl⟩)
    | polled | allowed | fetched | stored => cases h
  | checkRateLimit role =>
    cases reply with
    | allowed ok =>
      cases ok with
      | true =>
        cases h
        exact .goes rfl rfl
      | false =>
        cases h
        exact finish_moves c.l1 _ rfl
    | polled | found | fetched | stored => cases h
  | fetchRaw role =>
    cases reply with
    | fetched failure =>
      cases failure with
      | some message =>
        cases h
        exact finish_moves c.l1 _ rfl
      | none =>
        simp only [Task.step] at h
        split at h
        · cases h
          exact .goes rfl rfl
        · cases h
          exact finish_moves _ _ rfl
    | polled | found | allowed | stored => cases h
  | valkeySetRaw role entry =>
    cases reply with
    | stored =>
      cases h
      exact finish_moves _ _ rfl
    | polled | found | allowed | fetched => cases h
  | waitFor rx =>
    cases reply with
    | polled =>
      simp only [Task.step] at h
      split at h
      · cases h
        exact .returns c.l1 _ (.inl rfl)
      · cases h
    | found | allowed | fetched | stored => cases h
  | ended result => cases reply <;> cases h

end Step

/-! ## Runs without the two -/

/-- One fetch in flight at most, and nobody waits for one that has ended. -/
structure WeatherState.Coalesced (s : WeatherState) : Prop where
  single : s.tasks.countP Task.isUpstream ≤ 1
  nobodyLate : ∀ rx, .waitFor rx ∈ s.tasks → s.cell.value rx = false →
    ∃ t ∈ s.tasks, t.fetching? = some (.leader rx)

/-- No call takes the grace branch while a `do_fetch` is under way and none opens the map while a
refresh is; no leader is dropped. -/
def Contained (valkey : Bool) (s : WeatherState) : WeatherState.Action → Prop
  | .step k reply => ∀ t, s.tasks[k]? = some t →
      (t.Bypasses s.cell reply → ∀ u ∈ s.tasks, u.fetching? = none) ∧
        (t.Enters valkey s.cell reply → s.cell.inflight = none →
          ∀ u ∈ s.tasks, u.fetching? ≠ some .refresh)
  | .cancel k => ∀ t tx, s.tasks[k]? = some t → t.fetching? ≠ some (.leader tx)
  | _ => True

theorem mem_of_received {s : WeatherState} {tx : Chan} (h : s.received tx = true) :
    .waitFor tx ∈ s.tasks := by
  obtain ⟨t, ht, hreceives⟩ := List.any_eq_true.mp h
  cases t with
  | waitFor rx =>
    obtain rfl := beq_iff_eq.mp hreceives
    exact ht
  | _ => cases hreceives

def Task.runs (t : Task) : ℕ := if t.fetching?.isSome then 1 else 0

structure Guarded (s : WeatherState) : Prop where
  once : weight Task.runs s.tasks ≤ 1
  leads : ∀ t ∈ s.tasks, ∀ tx, t.fetching? = some (.leader tx) → s.cell.inflight = some tx
  led : ∀ tx, s.cell.inflight = some tx → ∃ t ∈ s.tasks, t.fetching? = some (.leader tx)
  waits : ∀ rx, .waitFor rx ∈ s.tasks → s.cell.value rx = false → s.cell.inflight = some rx
  unsent : ∀ tx, s.cell.inflight = some tx → s.cell.value tx = false
  made : ∀ rx, .waitFor rx ∈ s.tasks ∨ s.cell.inflight = some rx → rx < s.cell.channels

theorem runs_of_none {t : Task} (h : t.fetching? = none) : t.runs = 0 := by
  rw [Task.runs, h]
  rfl

theorem runs_of_some {t : Task} {role : Role} (h : t.fetching? = some role) : t.runs = 1 := by
  rw [Task.runs, h]
  rfl

theorem upstream_le_runs (ts : List Task) : ts.countP Task.isUpstream ≤ weight Task.runs ts := by
  induction ts with
  | nil => exact Nat.le_refl 0
  | cons t ts ih =>
    have ht : (if t.isUpstream then 1 else 0) ≤ t.runs := by
      cases t <;> simp [Task.isUpstream, Task.runs, Task.fetching?]
    rw [List.countP_cons, weight_cons]
    omega

theorem Guarded.coalesced {s : WeatherState} (h : Guarded s) : s.Coalesced where
  single := (upstream_le_runs s.tasks).trans h.once
  nobodyLate rx hrx hvalue := h.led rx (h.waits rx hrx hvalue)

section Guard
variable {valkey : Bool} {s s' : WeatherState} {t t' : Task} {c' : Cell} {others new ts' : List Task}
  {reply : Reply}

/-- A step that leaves the map and the channels alone and the leader where it was. -/
theorem Guarded.kept (h : Guarded s) (hrep : Replaced s.tasks t t' new others ts')
    (hinflight : c'.inflight = s.cell.inflight) (hvalue : c'.value = s.cell.value)
    (hchannels : c'.channels = s.cell.channels) (honce : weight Task.runs ts' ≤ 1)
    (hlead : ∀ tx, t'.fetching? = some (.leader tx) ↔ t.fetching? = some (.leader tx))
    (hnew : ∀ u ∈ new, u = .spawned)
    (hwait : ∀ rx, t' = .waitFor rx → s.cell.inflight = some rx) : Guarded ⟨c', ts'⟩ := by
  have hmem : ∀ rx, .waitFor rx ∈ ts' → .waitFor rx ∈ s.tasks ∨ s.cell.inflight = some rx := by
    intro rx hrx
    rcases hrep.mem_after.mp hrx with hrx | hrx | hrx
    · exact .inr (hwait rx hrx.symm)
    · exact .inl (hrep.other_mem_before hrx)
    · cases hnew _ hrx
  refine ⟨honce, hrep.forall_mem ?_ ?_ ?_, fun tx htx => ?_, fun rx hrx hfalse => ?_,
    fun tx htx => ?_, fun rx hrx => ?_⟩
  · intro u hu tx htx
    exact hinflight.trans (h.leads u (hrep.other_mem_before hu) tx htx)
  · intro tx htx
    exact hinflight.trans (h.leads t hrep.task_mem tx ((hlead tx).mp htx))
  · intro u hu tx htx
    rw [hnew u hu] at htx
    cases htx
  · exact hrep.exists_mem (h.led tx (hinflight.symm.trans htx)) (hlead tx).mpr
  · refine hinflight.trans ?_
    rcases hmem rx hrx with hold | hcurrent
    · exact h.waits rx hold (by rw [← hvalue]; exact hfalse)
    · exact hcurrent
  · exact (congrFun hvalue tx).trans (h.unsent tx (hinflight.symm.trans htx))
  · rw [show (⟨c', ts'⟩ : WeatherState).cell.channels = s.cell.channels from hchannels]
    rcases hrx with hrx | hrx
    · exact h.made rx (hmem rx hrx)
    · exact h.made rx (.inr (hinflight.symm.trans hrx))

/-- A task that does not lead ends. -/
theorem Guarded.returned (h : Guarded s) {result : Option (Except String RawEntry)}
    (hrep : Replaced s.tasks t (.ended result) [] others ts')
    (ht : ∀ tx, t.fetching? ≠ some (.leader tx)) (l1 : Option RawEntry) :
    Guarded ⟨{ s.cell with l1 }, ts'⟩ := by
  have hbefore := hrep.weight_before Task.runs
  have hafter := hrep.weight_after Task.runs
  have honce := h.once
  have hended : (Task.ended result).runs = 0 := rfl
  rw [hended, weight_nil] at hafter
  exact h.kept hrep rfl rfl rfl (by omega) (fun tx => iff_of_false (by rintro ⟨⟩) (ht tx))
    (by rintro _ ⟨⟩) (by rintro _ ⟨⟩)

/-- A call finds the map empty and leads. -/
theorem Guarded.opened (h : Guarded s) (hrep : Replaced s.tasks t t' [] others ts')
    (hempty : s.cell.inflight = none) (hrefresh : ∀ u ∈ s.tasks, u.fetching? ≠ some .refresh)
    (ht' : t'.fetching? = some (.leader s.cell.channels)) :
    Guarded ⟨{ s.cell with inflight := some s.cell.channels
                           value := Function.update s.cell.value s.cell.channels false
                           channels := s.cell.channels + 1 }, ts'⟩ := by
  have hnone : ∀ u ∈ s.tasks, u.fetching? = none := by
    intro u hu
    cases hfetching : u.fetching? with
    | none => rfl
    | some role =>
      cases role with
      | refresh => exact absurd hfetching (hrefresh u hu)
      | leader tx =>
        have hsome := h.leads u hu tx hfetching
        rw [hempty] at hsome
        cases hsome
  have hold : ∀ rx, .waitFor rx ∈ ts' → .waitFor rx ∈ s.tasks := by
    intro rx hrx
    rcases hrep.mem_after.mp hrx with hrx | hrx | hrx
    · rw [← hrx] at ht'
      cases ht'
    · exact hrep.other_mem_before hrx
    · cases hrx
  refine ⟨?_, hrep.forall_mem ?_ ?_ (by rintro _ ⟨⟩), fun tx htx => ?_, fun rx hrx hfalse => ?_,
    fun tx htx => ?_, fun rx hrx => ?_⟩
  · have hothers : weight Task.runs others = 0 :=
      (weight_eq_zero _).mpr fun u hu => runs_of_none (hnone u (hrep.other_mem_before hu))
    rw [hrep.weight_after, hothers, runs_of_some ht', weight_nil]
    omega
  · intro u hu tx htx
    rw [hnone u (hrep.other_mem_before hu)] at htx
    cases htx
  · intro tx htx
    exact congrArg some (Role.leader.inj (Option.some.inj (ht'.symm.trans htx)))
  · obtain rfl := Option.some.inj htx
    exact ⟨t', hrep.successor_mem, ht'⟩
  · have hlt : rx < s.cell.channels := h.made rx (.inl (hold rx hrx))
    have hsame : Function.update s.cell.value s.cell.channels false rx = s.cell.value rx :=
      Function.update_of_ne hlt.ne _ _
    have hsome := h.waits rx (hold rx hrx) (hsame.symm.trans hfalse)
    rw [hempty] at hsome
    cases hsome
  · obtain rfl := Option.some.inj htx
    exact Function.update_self ..
  · rcases hrx with hrx | hrx
    · exact Nat.lt_succ_of_lt (h.made rx (.inl (hold rx hrx)))
    · obtain rfl := Option.some.inj hrx
      exact Nat.lt_succ_self _

/-- The leader leaves: everybody who waits for it has been sent the value. -/
theorem Guarded.left (h : Guarded s) (hrep : Replaced s.tasks t t' [] others ts') {tx : Chan}
    (ht : t.fetching? = some (.leader tx)) (ht' : t'.fetching? = none) (hquiet : ∀ rx, t' ≠ .waitFor rx)
    (l1 : Option RawEntry) :
    Guarded ⟨{ s.cell with l1, inflight := none
                           value := if s.received tx then Function.update s.cell.value tx true
                             else s.cell.value }, ts'⟩ := by
  have hcurrent := h.leads t hrep.task_mem tx ht
  have hbefore := hrep.weight_before Task.runs
  have honce := h.once
  rw [runs_of_some ht] at hbefore
  have hothers : weight Task.runs others = 0 := by omega
  have hnone : ∀ u ∈ others, u.fetching? = none := by
    intro u hu
    have hzero := (weight_eq_zero _).mp hothers u hu
    cases hfetching : u.fetching? with
    | none => rfl
    | some role =>
      rw [runs_of_some hfetching] at hzero
      cases hzero
  have hold : ∀ rx, .waitFor rx ∈ ts' → .waitFor rx ∈ s.tasks := by
    intro rx hrx
    rcases hrep.mem_after.mp hrx with hrx | hrx | hrx
    · exact absurd hrx.symm (hquiet rx)
    · exact hrep.other_mem_before hrx
    · cases hrx
  refine ⟨?_, hrep.forall_mem ?_ ?_ (by rintro _ ⟨⟩), by rintro _ ⟨⟩, fun rx hrx hfalse => ?_,
    by rintro _ ⟨⟩, fun rx hrx => ?_⟩
  · rw [hrep.weight_after, hothers, runs_of_none ht', weight_nil]
    omega
  · intro u hu tx' htx'
    rw [hnone u hu] at htx'
    cases htx'
  · intro tx' htx'
    rw [ht'] at htx'
    cases htx'
  · -- a waiter is a receiver, so the value was stored
    have hwas := hold rx hrx
    dsimp only at hfalse
    by_cases hrx' : rx = tx
    · subst hrx'
      have hreceived : s.received rx = true :=
        List.any_eq_true.mpr ⟨_, hwas, by simp [Task.receives]⟩
      rw [if_pos hreceived, Function.update_self] at hfalse
      cases hfalse
    · have hsame : s.cell.value rx = false := by
        split at hfalse
        · rwa [Function.update_of_ne hrx'] at hfalse
        · exact hfalse
      have hother := h.waits rx hwas hsame
      rw [hcurrent] at hother
      exact absurd (Option.some.inj hother).symm hrx'
  · rcases hrx with hrx | hrx
    · exact h.made rx (.inl (hold rx hrx))
    · cases hrx

theorem Guarded.moves (h : Guarded s)
    (hmoves : Moves valkey s.cell s.received t reply c' t' new)
    (hrep : Replaced s.tasks t t' new others ts')
    (hbypass : t.Bypasses s.cell reply → ∀ u ∈ s.tasks, u.fetching? = none)
    (hopen : t.Enters valkey s.cell reply → s.cell.inflight = none →
      ∀ u ∈ s.tasks, u.fetching? ≠ some .refresh) : Guarded ⟨c', ts'⟩ := by
  have hbefore := hrep.weight_before Task.runs
  have hafter := hrep.weight_after Task.runs
  have honce := h.once
  cases hmoves with
  | returns l1 result ht =>
    refine h.returned hrep (fun tx htx => ?_) l1
    rw [htx] at ht
    simp at ht
  | bypasses result hb =>
    have hnone := hbypass hb
    have hothers : weight Task.runs others = 0 :=
      (weight_eq_zero _).mpr fun u hu => runs_of_none (hnone u (hrep.other_mem_before hu))
    have hnew : weight Task.runs [Task.spawned] = 1 := rfl
    have hended : (Task.ended result).runs = 0 := rfl
    refine h.kept hrep rfl rfl rfl (by omega) (fun tx => ?_) (by simp) (by rintro _ ⟨⟩)
    rw [hnone t hrep.task_mem]
    exact iff_of_false (by rintro ⟨⟩) (by rintro ⟨⟩)
  | misses ht =>
    have hmissed : Task.valkeyGetRaw.runs = 0 := rfl
    rw [hmissed, weight_nil] at hafter
    refine h.kept hrep rfl rfl rfl (by omega) (fun tx => ?_) (by rintro _ ⟨⟩) (by rintro _ ⟨⟩)
    rw [ht]
    exact iff_of_false (by rintro ⟨⟩) (by rintro ⟨⟩)
  | opens he hempty ht' => exact h.opened hrep hempty (hopen he hempty) ht'
  | @joins he tx htx hvalue =>
    have hwaiting : (Task.waitFor tx).runs = 0 := rfl
    rw [hwaiting, weight_nil] at hafter
    refine h.kept hrep rfl rfl rfl (by omega) (fun tx => ?_) (by rintro _ ⟨⟩) fun rx hrx => ?_
    · rw [he.fetching]
      exact iff_of_false (by rintro ⟨⟩) (by rintro ⟨⟩)
    · cases hrx
      exact htx
  | goes ht ht' =>
    rw [runs_of_some ht', weight_nil] at hafter
    rw [runs_of_some ht] at hbefore
    refine h.kept hrep rfl rfl rfl (by omega) (fun tx => ?_) (by rintro _ ⟨⟩) fun rx hrx => ?_
    · rw [ht, ht']
    · rw [hrx] at ht'
      cases ht'
  | leaves l1 result ht => exact h.left hrep ht rfl (by rintro _ ⟨⟩) l1

theorem Guarded.step (h : Guarded s) {a : WeatherState.Action} (hok : Contained valkey s a)
    (hstep : s.step valkey a = some s') : Guarded s' := by
  cases a with
  | call =>
    obtain rfl := Option.some.inj hstep
    have hmem : ∀ u, u ∈ s.tasks ++ [Task.called] → u ∈ s.tasks ∨ u = .called := by simp
    refine ⟨?_, fun u hu tx htx => ?_, fun tx htx => ?_, fun rx hrx => ?_, h.unsent, fun rx hrx => ?_⟩
    · have hcalled : weight Task.runs [Task.called] = 0 := rfl
      rw [weight_append, hcalled]
      exact h.once
    · rcases hmem u hu with hu | rfl
      · exact h.leads u hu tx htx
      · cases htx
    · obtain ⟨u, hu, hlead⟩ := h.led tx htx
      exact ⟨u, List.mem_append_left _ hu, hlead⟩
    · exact h.waits rx ((hmem _ hrx).resolve_right (by rintro ⟨⟩))
    · exact h.made rx (hrx.imp_left fun hrx => (hmem _ hrx).resolve_right (by rintro ⟨⟩))
  | step k reply =>
    obtain ⟨t, ht, hstep⟩ := Option.bind_eq_some_iff.mp hstep
    obtain ⟨⟨c', t', new⟩, hmove, hs'⟩ := Option.bind_eq_some_iff.mp hstep
    obtain rfl := Option.some.inj hs'
    obtain ⟨others, hrep, -⟩ := advance_replaced ht t' new
    exact h.moves (step_moves hmove) hrep (hok t ht).1 (hok t ht).2
  | cancel k =>
    obtain ⟨t, ht, hstep⟩ := Option.bind_eq_some_iff.mp hstep
    split at hstep
    · cases hstep
    · obtain rfl := Option.some.inj hstep
      obtain ⟨others, hrep, -⟩ := advance_replaced ht (.ended none) []
      exact h.returned hrep (fun tx => hok t tx ht) s.cell.l1
  | tick secs =>
    obtain rfl := Option.some.inj hstep
    exact ⟨h.once, h.leads, h.led, h.waits, h.unsent, h.made⟩
  | evict =>
    obtain rfl := Option.some.inj hstep
    exact ⟨h.once, h.leads, h.led, h.waits, h.unsent, h.made⟩

end Guard

theorem guarded_init : Guarded WeatherState.init where
  once := Nat.zero_le 1
  leads := by rintro _ ⟨⟩
  led := by rintro _ ⟨⟩
  waits := by rintro _ ⟨⟩
  unsent := by rintro _ ⟨⟩
  made := by
    rintro rx (hwaits | hopen)
    · cases hwaits
    · cases hopen

/-- In a run without the two, at most one fetch is in flight in every state, and nobody waits for one
that has ended. -/
theorem fetches_coalesced (valkey : Bool) {s : WeatherState}
    (h : Run (WeatherState.step valkey) (Contained valkey) WeatherState.init s) : s.Coalesced := by
  have hguarded : Guarded s :=
    h.invariant guarded_init fun _ _ _ _ hx hok hstep => hx.step hok hstep
  exact hguarded.coalesced

/-- No entry is in its grace period, no refresh is running, nobody is dropped. -/
def plainStep (s : WeatherState) : WeatherState.Action → Bool
  | .step _ _ => !s.cell.inGrace && s.tasks.all fun u => u.fetching? != some .refresh
  | .cancel _ => false
  | _ => true

theorem plainStep_contained (valkey : Bool) (s : WeatherState) (a : WeatherState.Action)
    (h : plainStep s a = true) : Contained valkey s a := by
  cases a with
  | step k reply =>
    obtain ⟨hgrace, hrefresh⟩ : s.cell.inGrace = false ∧
        ∀ u ∈ s.tasks, u.fetching? ≠ some .refresh := by simpa [plainStep] using h
    intro t _
    refine ⟨fun hb => ?_, fun _ _ => hrefresh⟩
    rw [hb.2.2] at hgrace
    cases hgrace
  | cancel k => cases h
  | call | tick secs | evict => trivial

/-- Two calls of which the second waits for the first. -/
theorem two_calls_coalesced : ∃ s : WeatherState, s.received 0 = true ∧ s.Coalesced := by
  have hexec : (exec (WeatherState.step false) plainStep WeatherState.init
      [.call, .call, .step 0 .polled, .step 1 .polled]).any (fun s => s.received 0) = true := by
    decide
  obtain ⟨s, hrun, hs⟩ := Run.exists_of_exec (plainStep_contained false) hexec
  exact ⟨s, hs, fetches_coalesced false hrun⟩

/-! ## What a dropped leader leaves -/

/-- The map has an entry whose leader is gone. -/
structure Abandoned (tx : Chan) (s : WeatherState) : Prop where
  entry : s.cell.inflight = some tx
  unsent : s.cell.value tx = false
  leaderless : ∀ t ∈ s.tasks, ∀ tx', t.fetching? ≠ some (.leader tx')

section Drop
variable {valkey : Bool} {s s' : WeatherState} {tx : Chan} {t t' : Task} {c' : Cell}
  {others new ts' : List Task} {reply : Reply}

theorem Abandoned.moves (h : Abandoned tx s)
    (hmoves : Moves valkey s.cell s.received t reply c' t' new)
    (hrep : Replaced s.tasks t t' new others ts') : Abandoned tx ⟨c', ts'⟩ := by
  have hleaderless : (∀ tx', t'.fetching? ≠ some (.leader tx')) →
      (∀ u ∈ new, ∀ tx', u.fetching? ≠ some (.leader tx')) →
      ∀ u ∈ ts', ∀ tx', u.fetching? ≠ some (.leader tx') :=
    hrep.forall_mem fun u hu => h.leaderless u (hrep.other_mem_before hu)
  cases hmoves with
  | returns l1 result ht => exact ⟨h.entry, h.unsent, hleaderless (by rintro _ ⟨⟩) (by rintro _ ⟨⟩)⟩
  | bypasses result hb => exact ⟨h.entry, h.unsent,
    hleaderless (by rintro _ ⟨⟩) (by simp [Task.fetching?])⟩
  | misses ht => exact ⟨h.entry, h.unsent, hleaderless (by rintro _ ⟨⟩) (by rintro _ ⟨⟩)⟩
  | opens he hempty ht' =>
    have hentry := h.entry
    rw [hempty] at hentry
    cases hentry
  | joins he htx hvalue => exact ⟨h.entry, h.unsent, hleaderless (by rintro _ ⟨⟩) (by rintro _ ⟨⟩)⟩
  | goes ht ht' =>
    refine ⟨h.entry, h.unsent, hleaderless (fun tx' htx' => ?_) (by rintro _ ⟨⟩)⟩
    exact h.leaderless t hrep.task_mem tx' (ht.trans (ht'.symm.trans htx'))
  | leaves l1 result ht => exact absurd ht (h.leaderless t hrep.task_mem _)

theorem Abandoned.step (h : Abandoned tx s) {a : WeatherState.Action}
    (hstep : s.step valkey a = some s') : Abandoned tx s' := by
  cases a with
  | call =>
    obtain rfl := Option.some.inj hstep
    refine ⟨h.entry, h.unsent, fun u hu => ?_⟩
    rcases List.mem_append.mp hu with hu | hu
    · exact h.leaderless u hu
    · rw [List.mem_singleton.mp hu]
      rintro _ ⟨⟩
  | step k reply =>
    obtain ⟨t, ht, hstep⟩ := Option.bind_eq_some_iff.mp hstep
    obtain ⟨⟨c', t', new⟩, hmove, hs'⟩ := Option.bind_eq_some_iff.mp hstep
    obtain rfl := Option.some.inj hs'
    obtain ⟨others, hrep, -⟩ := advance_replaced ht t' new
    exact h.moves (step_moves hmove) hrep
  | cancel k =>
    obtain ⟨t, ht, hstep⟩ := Option.bind_eq_some_iff.mp hstep
    split at hstep
    · cases hstep
    · obtain rfl := Option.some.inj hstep
      obtain ⟨others, hrep, -⟩ := advance_replaced ht (.ended none) []
      refine ⟨h.entry, h.unsent, hrep.forall_mem (fun u hu => ?_) (by rintro _ ⟨⟩) (by rintro _ ⟨⟩)⟩
      exact h.leaderless u (hrep.other_mem_before hu)
  | tick secs | evict =>
    obtain rfl := Option.some.inj hstep
    exact ⟨h.entry, h.unsent, h.leaderless⟩

/-- Dropping the leader of a guarded cell abandons the entry. -/
theorem Guarded.abandon (h : Guarded s) {k : ℕ} (ht : s.tasks[k]? = some t)
    (hlead : t.fetching? = some (.leader tx)) (hstep : s.step valkey (.cancel k) = some s') :
    Abandoned tx s' := by
  obtain ⟨u, hu, hstep⟩ := Option.bind_eq_some_iff.mp hstep
  obtain rfl := Option.some.inj (ht.symm.trans hu)
  split at hstep
  · cases hstep
  · obtain rfl := Option.some.inj hstep
    obtain ⟨others, hrep, -⟩ := advance_replaced ht (.ended none) []
    have hentry := h.leads t hrep.task_mem tx hlead
    have hbefore := hrep.weight_before Task.runs
    have honce := h.once
    rw [runs_of_some hlead] at hbefore
    have hothers : weight Task.runs others = 0 := by omega
    refine ⟨hentry, h.unsent tx hentry, hrep.forall_mem (fun x hx tx' htx' => ?_) (by rintro _ ⟨⟩)
      (by rintro _ ⟨⟩)⟩
    have hzero := (weight_eq_zero _).mp hothers x hx
    rw [runs_of_some htx'] at hzero
    cases hzero

/-- Nothing ever removes the entry or sends on its channel: whoever waits for it waits for good. -/
theorem abandoned_forever (h : Abandoned tx s)
    (hrun : Run (WeatherState.step valkey) (fun _ _ => True) s s') : Abandoned tx s' :=
  hrun.invariant h fun _ _ _ _ hx _ hstep => hx.step hstep

end Drop

/-- An hour after a fetch two calls each spawn a refresh; and when a leader is dropped, the call that
waits for it goes on waiting. -/
theorem fetches_not_coalesced :
    (¬ ∀ (valkey : Bool) (s : WeatherState),
      Run (WeatherState.step valkey) (fun _ _ => True) WeatherState.init s →
      s.tasks.countP Task.isUpstream ≤ 1) ∧
    ¬ ∀ (valkey : Bool) (s : WeatherState),
      Run (WeatherState.step valkey) (fun _ _ => True) WeatherState.init s →
      ∀ rx, .waitFor rx ∈ s.tasks → s.cell.value rx = false →
        ∃ t ∈ s.tasks, t.fetching? = some (.leader rx) := by
  constructor
  · intro hall
    have hexec : (exec (WeatherState.step false) (fun _ _ => true) WeatherState.init
        [.call, .step 0 .polled, .step 0 (.fetched none), .tick 3600, .call, .call, .step 1 .polled,
          .step 2 .polled, .step 3 .polled, .step 4 .polled]).any
        (fun s => s.tasks.countP Task.isUpstream == 2) = true := by
      decide
    obtain ⟨s, hrun, hs⟩ := Run.exists_of_exec (fun _ _ _ => trivial) hexec
    have hle := hall false s hrun
    rw [beq_iff_eq.mp hs] at hle
    omega
  · intro hall
    have hexec : (exec (WeatherState.step false) (fun _ _ => true) WeatherState.init
        [.call, .call, .step 0 .polled, .step 1 .polled, .cancel 0]).any
        (fun s => s.received 0 && !s.cell.value 0 && s.tasks.all fun t => t.fetching?.isNone) =
          true := by
      decide
    obtain ⟨s, hrun, hs⟩ := Run.exists_of_exec (fun _ _ _ => trivial) hexec
    simp only [Bool.and_eq_true, Bool.not_eq_true'] at hs
    obtain ⟨⟨hreceived, hvalue⟩, hnone⟩ := hs
    obtain ⟨t, ht, hlead⟩ := hall false s hrun 0 (mem_of_received hreceived) hvalue
    have hnot := List.all_eq_true.mp hnone t ht
    rw [hlead] at hnot
    cases hnot

end Veronex.Weather
