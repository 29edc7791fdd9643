import Mathlib.Data.List.Infix
import Veronex.Conversation.Context
import Veronex.Foundation.ForLoop
import Veronex.Mcp.Bridge

/-! # The pre-flight pruner

`prune_to_budget` of `context_pruner.rs`, over the count of `context_budget.rs`. The count is a
parameter; `TokenCount` is one that adds up message by message.

`prune_keepsShape` is what any count leaves of the messages, `prune_bounded_iff` when the bounds of
`TrimReport` hold.
-/
namespace Veronex
set_option autoImplicit false
open Concurrency

def PER_MESSAGE_TOKENS : ℕ := 4
def PRIMING_TOKENS : ℕ := 2
def PLACEHOLDER_CONTENT : String := "[earlier conversation turns omitted to fit context window]"

/-- A count that adds up over the messages, with a constant. -/
structure TokenCount where
  perMessage : Json → ℕ
  priming : ℕ

def TokenCount.count (w : TokenCount) (messages : List Json) : ℕ :=
  (messages.map w.perMessage).sum + w.priming

def roleOf (m : Json) : Option String := (m.get "role").bind Json.asStr

/-- What a message counts for; `encode` is the length of a text in tokens. -/
def messageTokens (encode : String → ℕ) (m : Json) : ℕ :=
  (roleOf m).elim 0 encode + (contentOf m).elim 0 encode + PER_MESSAGE_TOKENS

/-- `count_messages_tokens`; the sums saturate. -/
def countMessagesTokens (encode : String → ℕ) (messages : List Json) : ℕ :=
  min ((messages.map (messageTokens encode)).sum + PRIMING_TOKENS) U32_MAX

/-- Below 2^32 the count adds up. -/
theorem countMessagesTokens_eq (encode : String → ℕ) (messages : List Json)
    (hsum : (messages.map (messageTokens encode)).sum + PRIMING_TOKENS ≤ U32_MAX) :
    countMessagesTokens encode messages =
      TokenCount.count { perMessage := messageTokens encode, priming := PRIMING_TOKENS } messages :=
  min_eq_left hsum

/-! ## The loop -/

structure TrimReport where
  initial : ℕ
  budgetAfter : ℕ
  dropped : ℕ

def TrimReport.noOp (count : ℕ) : TrimReport :=
  { initial := count, budgetAfter := count, dropped := 0 }

def isSystemMessage (m : Json) : Bool := roleOf m == some "system"

def placeholder : Json := message "system" PLACEHOLDER_CONTENT

/-- The vector `keep`, by position, and the number of messages dropped. -/
structure PruneState where
  keep : ℕ → Bool
  dropped : ℕ

def keptMessages (messages : List Json) (keep : ℕ → Bool) : List Json :=
  (messages.zipIdx.filter fun p => keep p.2).map Prod.fst

def recentStart (messages : List Json) (recentK : ℕ) : ℕ := messages.length - max recentK 1

def pruneRound (count : List Json → ℕ) (messages : List Json) (budget recentK i : ℕ)
    (s : PruneState) : LoopStep PruneState Unit :=
  if recentStart messages recentK ≤ i then .stop s ()
  else if messages[i]?.any isSystemMessage then .next s
  else
    let s : PruneState := { keep := Function.update s.keep i false, dropped := s.dropped + 1 }
    if count (keptMessages messages s.keep) ≤ budget then .stop s () else .next s

def insertPlaceholder (kept : List Json) : List Json :=
  kept.insertIdx (kept.findIdx fun m => !isSystemMessage m) placeholder

def pruneToBudget (count : List Json → ℕ) (messages : List Json) (budget recentK : ℕ) :
    List Json × TrimReport :=
  let initial := count messages
  if initial ≤ budget then (messages, .noOp initial)
  else
    let s := (forLoop (pruneRound count messages budget recentK) messages.length 0
      { keep := fun _ => true, dropped := 0 }).1
    let kept := keptMessages messages s.keep
    let result := if 0 < s.dropped then insertPlaceholder kept else kept
    (result, { initial, budgetAfter := count result, dropped := s.dropped })

/-! ## What is kept -/

/-- The messages that may be dropped. -/
def droppable (messages : List Json) (recentK : ℕ) : List Json :=
  (messages.take (recentStart messages recentK)).filter fun m => !isSystemMessage m

/-- What is kept when the loop has looked at the first `i` messages. -/
def keptFrom (messages : List Json) (i : ℕ) : List Json :=
  (messages.take i).filter isSystemMessage ++ messages.drop i

/-- `out` is `kept`, with the placeholder put in exactly if messages were dropped. -/
inductive Marked (kept : List Json) : ℕ → List Json → Prop
  | whole : Marked kept 0 kept
  | marked {front back : List Json} {dropped : ℕ} (hkept : kept = front ++ back)
      (hdropped : 0 < dropped) : Marked kept dropped (front ++ placeholder :: back)

section Loop
variable {count : List Json → ℕ} {messages : List Json} {budget recentK i : ℕ} {s : PruneState}

/-- `keep` when the loop has looked at the first `i` messages. -/
def keepFrom (messages : List Json) (i j : ℕ) : Bool :=
  decide (i ≤ j) || messages[j]?.any isSystemMessage

/-- The messages at the positions from `k` on that `keep` keeps. -/
theorem filter_zipIdx_of_keep {keep : ℕ → Bool} {p : Json → Bool} (ms : List Json) (k : ℕ)
    (hkeep : ∀ j m, ms[j]? = some m → keep (k + j) = p m) :
    ((ms.zipIdx k).filter fun q => keep q.2).map Prod.fst = ms.filter p := by
  induction ms generalizing k with
  | nil => rfl
  | cons m ms ih =>
    have hhead : keep k = p m := by simpa using hkeep 0 m (by simp)
    have hrest := ih (k + 1) fun j m' hget => by
      have := hkeep (j + 1) m' (by simpa using hget)
      rwa [← Nat.add_assoc, Nat.add_right_comm] at this
    rw [List.zipIdx_cons, List.filter_cons, List.filter_cons, hhead]
    cases p m with
    | true => simp [hrest]
    | false => simpa using hrest

theorem keptMessages_keepFrom (messages : List Json) (i : ℕ) :
    keptMessages messages (keepFrom messages i) = keptFrom messages i := by
  have hcut : messages.zipIdx =
      (messages.take i).zipIdx ++ (messages.drop i).zipIdx (0 + (messages.take i).length) := by
    rw [← List.zipIdx_append, List.take_append_drop]
  unfold keptMessages keptFrom
  rw [hcut, List.filter_append, List.map_append,
    filter_zipIdx_of_keep (p := isSystemMessage) (messages.take i) 0,
    filter_zipIdx_of_keep (p := fun _ => true) (messages.drop i), List.filter_true]
  · intro j m hget
    have hlt : i + j < messages.length := by
      have := (List.getElem?_eq_some_iff.mp hget).1
      rw [List.length_drop] at this
      omega
    have hle : i ≤ 0 + (messages.take i).length + j := by
      rw [List.length_take]
      omega
    rw [keepFrom, decide_eq_true hle, Bool.true_or]
  · intro j m hget
    have hlt : j < i := by
      have := (List.getElem?_eq_some_iff.mp hget).1
      rw [List.length_take] at this
      omega
    rw [List.getElem?_take_of_lt hlt] at hget
    simp [keepFrom, hget, hlt]

theorem keptFrom_succ {m : Json} (hget : messages[i]? = some m) (hsystem : isSystemMessage m = true) :
    keptFrom messages (i + 1) = keptFrom messages i := by
  obtain ⟨hlt, rfl⟩ := List.getElem?_eq_some_iff.mp hget
  rw [keptFrom, keptFrom, List.take_succ_eq_append_getElem hlt, List.filter_append,
    List.filter_singleton, hsystem, List.append_assoc, List.drop_eq_getElem_cons hlt]
  rfl

/-- The number of messages dropped among the first `i`. -/
def droppedBefore (messages : List Json) (i : ℕ) : ℕ :=
  (messages.take i).countP fun m => !isSystemMessage m

theorem droppedBefore_succ {m : Json} (hget : messages[i]? = some m) :
    droppedBefore messages (i + 1) =
      droppedBefore messages i + if isSystemMessage m then 0 else 1 := by
  obtain ⟨hlt, rfl⟩ := List.getElem?_eq_some_iff.mp hget
  rw [droppedBefore, List.take_succ_eq_append_getElem hlt, List.countP_append,
    List.countP_singleton, droppedBefore]
  cases isSystemMessage messages[i] with
  | true => rfl
  | false => rfl

/-- What the loop has done when it has looked at the first `i` messages. -/
structure Looked (messages : List Json) (i : ℕ) (s : PruneState) : Prop where
  keep : s.keep = keepFrom messages i
  dropped : s.dropped = droppedBefore messages i

theorem Looked.kept (h : Looked messages i s) :
    keptMessages messages s.keep = keptFrom messages i := by
  rw [h.keep, keptMessages_keepFrom]

theorem Looked.zero : Looked messages 0 { keep := fun _ => true, dropped := 0 } where
  keep := by
    funext j
    simp [keepFrom]
  dropped := by simp [droppedBefore]

theorem Looked.pass {m : Json} (h : Looked messages i s) (hget : messages[i]? = some m)
    (hsystem : isSystemMessage m = true) : Looked messages (i + 1) s where
  keep := by
    rw [h.keep]
    funext j
    by_cases hj : j = i
    · simp [keepFrom, hj, hget, hsystem]
    · have hlook : i ≤ j ↔ i + 1 ≤ j := by omega
      simp [keepFrom, hlook]
  dropped := by
    rw [h.dropped, droppedBefore_succ hget, if_pos hsystem, Nat.add_zero]

theorem Looked.drop {m : Json} (h : Looked messages i s) (hget : messages[i]? = some m)
    (hsystem : isSystemMessage m = false) :
    Looked messages (i + 1)
      { keep := Function.update s.keep i false, dropped := s.dropped + 1 } where
  keep := by
    rw [h.keep]
    funext j
    by_cases hj : j = i
    · simp [keepFrom, hj, hget, hsystem]
    · have hlook : i ≤ j ↔ i + 1 ≤ j := by omega
      simp [keepFrom, Function.update_of_ne hj, hlook]
  dropped := by
    simp [h.dropped, droppedBefore_succ hget, hsystem]


/-- The loop goes on while what is kept is over the budget. -/
structure Over (count : List Json → ℕ) (messages : List Json) (budget recentK i : ℕ)
    (s : PruneState) : Prop where
  looked : Looked messages i s
  within : i ≤ recentStart messages recentK
  exceeds : budget < count (keptFrom messages i)

/-- Where the loop ends: at the recent messages, or behind the message that makes the rest fit. -/
structure Pruned (count : List Json → ℕ) (messages : List Json) (budget recentK i : ℕ)
    (s : PruneState) : Prop where
  looked : Looked messages i s
  within : i ≤ recentStart messages recentK
  ended : (i = recentStart messages recentK ∧ budget < count (keptFrom messages i)) ∨
    ∃ k, droppedBefore messages i = droppedBefore messages k + 1 ∧ k < i ∧
      budget < count (keptFrom messages k) ∧ count (keptFrom messages i) ≤ budget

theorem Over.round (h : Over count messages budget recentK i s) (hi : i < messages.length) :
    match pruneRound count messages budget recentK i s with
    | .next t => Over count messages budget recentK (i + 1) t
    | .stop t _ => ∃ k, Pruned count messages budget recentK k t := by
  have hget : messages[i]? = some messages[i] := List.getElem?_eq_getElem hi
  unfold pruneRound
  by_cases hstart : recentStart messages recentK ≤ i
  · rw [if_pos hstart]
    exact ⟨i, h.looked, h.within, .inl ⟨le_antisymm h.within hstart, h.exceeds⟩⟩
  rw [if_neg hstart, hget, Option.any_some]
  cases hsystem : isSystemMessage messages[i] with
  | true =>
    rw [if_pos rfl]
    exact ⟨h.looked.pass hget hsystem, by omega, keptFrom_succ hget hsystem ▸ h.exceeds⟩
  | false =>
    have hlooked := h.looked.drop hget hsystem
    rw [if_neg Bool.false_ne_true]
    dsimp only
    rw [hlooked.kept]
    by_cases hfits : count (keptFrom messages (i + 1)) ≤ budget
    · rw [if_pos hfits]
      refine ⟨i + 1, hlooked, by omega, .inr ⟨i, ?_, i.lt_succ_self, h.exceeds, hfits⟩⟩
      rw [droppedBefore_succ hget, hsystem]
      rfl
    · rw [if_neg hfits]
      exact ⟨hlooked, by omega, by omega⟩

/-- A list over the budget is pruned. -/
theorem forLoop_pruned (recentK : ℕ) (hover : budget < count messages) :
    ∃ i, Pruned count messages budget recentK i
      (forLoop (pruneRound count messages budget recentK) messages.length 0
        { keep := fun _ => true, dropped := 0 }).1 := by
  have hstart : Over count messages budget recentK 0 { keep := fun _ => true, dropped := 0 } := by
    refine ⟨.zero, Nat.zero_le _, ?_⟩
    simpa [keptFrom] using hover
  have hbefore : ∀ i t, i ≤ messages.length →
      before (pruneRound count messages budget recentK) { keep := fun _ => true, dropped := 0 } i =
        some t → Over count messages budget recentK i t := by
    intro i t hi ht
    refine before_invariant
      (I := fun i t => i ≤ messages.length → Over count messages budget recentK i t)
      (fun _ => hstart) ?_ ht hi
    intro j u w _ hu hnext hj
    have hround := (hu (by omega)).round (by omega)
    rwa [hnext] at hround
  rcases forLoop_cases (pruneRound count messages budget recentK) messages.length
    { keep := fun _ => true, dropped := 0 } with ⟨t, ht, hloop⟩ | ⟨i, t, w, e, hi, ht, hstop, hloop⟩
  · have hlast := hbefore _ t le_rfl ht
    have hend : messages.length = recentStart messages recentK := by
      have := hlast.within
      unfold recentStart at *
      omega
    rw [hloop]
    exact ⟨_, hlast.looked, hlast.within, .inl ⟨hend, hlast.exceeds⟩⟩
  · have hround := (hbefore i t hi.le ht).round hi
    rw [hstop] at hround
    rw [hloop]
    exact hround

end Loop

/-! ## The shape of the result -/

section Shape
variable {count : List Json → ℕ} {messages : List Json} {budget recentK i : ℕ}

theorem insertIdx_split (kept : List Json) {n : ℕ} (hn : n ≤ kept.length) (m : Json) :
    ∃ front back, kept = front ++ back ∧ kept.insertIdx n m = front ++ m :: back := by
  induction kept generalizing n with
  | nil =>
    obtain rfl : n = 0 := by simpa using hn
    exact ⟨[], [], rfl, rfl⟩
  | cons k kept ih =>
    cases n with
    | zero => exact ⟨[], k :: kept, rfl, rfl⟩
    | succ n =>
      obtain ⟨front, back, hkept, hinsert⟩ := ih (Nat.le_of_succ_le_succ hn)
      refine ⟨k :: front, back, by rw [hkept, List.cons_append], ?_⟩
      rw [List.insertIdx_succ_cons, hinsert, List.cons_append]

theorem insertPlaceholder_marked (kept : List Json) {dropped : ℕ} (hdropped : 0 < dropped) :
    Marked kept dropped (insertPlaceholder kept) := by
  have hle : kept.findIdx (fun m => !isSystemMessage m) ≤ kept.length := List.findIdx_le_length
  obtain ⟨front, back, hkept, hinsert⟩ := insertIdx_split kept hle placeholder
  rw [insertPlaceholder, hinsert]
  exact .marked hkept hdropped

/-- What a list over the budget is pruned to. -/
theorem pruneToBudget_of_over (recentK : ℕ) (hover : budget < count messages) :
    ∃ i s, Pruned count messages budget recentK i s ∧
      pruneToBudget count messages budget recentK =
        let result :=
          if 0 < s.dropped then insertPlaceholder (keptFrom messages i) else keptFrom messages i
        (result, { initial := count messages, budgetAfter := count result, dropped := s.dropped }) := by
  obtain ⟨i, hpruned⟩ := forLoop_pruned recentK hover
  refine ⟨i, _, hpruned, ?_⟩
  unfold pruneToBudget
  dsimp only
  rw [if_neg (Nat.not_le.mpr hover), hpruned.looked.kept]

theorem filter_take (hi : i ≤ recentStart messages recentK) :
    (messages.take i).filter (fun m => !isSystemMessage m) =
      (droppable messages recentK).take (droppedBefore messages i) := by
  have hfront : messages.take i <+: messages.take (recentStart messages recentK) :=
    List.take_prefix_take_left hi
  rw [droppedBefore, List.countP_eq_length_filter]
  exact List.prefix_iff_eq_take.mp (hfront.filter _)

theorem droppedBefore_le (hi : i ≤ recentStart messages recentK) :
    droppedBefore messages i ≤ (droppable messages recentK).length := by
  have htake := congrArg List.length (filter_take hi)
  rw [List.length_take, ← List.countP_eq_length_filter] at htake
  unfold droppedBefore at *
  omega

theorem keptFrom_sublist (messages : List Json) (i : ℕ) :
    (keptFrom messages i).Sublist messages := by
  have hfront : ((messages.take i).filter isSystemMessage).Sublist (messages.take i) :=
    List.filter_sublist
  have hwhole := hfront.append_right (messages.drop i)
  rwa [List.take_append_drop] at hwhole

theorem filter_keptFrom (messages : List Json) (i : ℕ) :
    (keptFrom messages i).filter isSystemMessage = messages.filter isSystemMessage := by
  have hcut := congrArg (List.filter isSystemMessage) (List.take_append_drop i messages)
  rw [List.filter_append] at hcut
  rw [keptFrom, List.filter_append, List.filter_filter, ← hcut]
  simp

theorem drop_suffix_keptFrom (hi : i ≤ recentStart messages recentK) :
    messages.drop (recentStart messages recentK) <:+ keptFrom messages i := by
  have hdrop : messages.drop (recentStart messages recentK) <:+ messages.drop i :=
    List.drop_suffix_drop_left messages hi
  exact hdrop.trans (List.suffix_append _ _)

theorem Marked.length {kept out : List Json} {dropped : ℕ} (h : Marked kept dropped out) :
    out.length = kept.length + if 0 < dropped then 1 else 0 := by
  cases h with
  | whole => rfl
  | marked hkept hdropped =>
    rw [hkept, if_pos hdropped]
    simp [Nat.add_assoc]

theorem length_keptFrom (messages : List Json) (i : ℕ) :
    (keptFrom messages i).length + droppedBefore messages i = messages.length := by
  have hfront := List.length_eq_countP_add_countP isSystemMessage (l := messages.take i)
  have hcut := congrArg List.length (List.take_append_drop i messages)
  rw [List.length_append] at hcut
  rw [keptFrom, droppedBefore, List.length_append, ← List.countP_eq_length_filter]
  simp only [Bool.not_eq_true, Bool.decide_eq_false] at hfront
  omega

theorem keptFrom_succ_sublist (messages : List Json) (i : ℕ) :
    (keptFrom messages (i + 1)).Sublist (keptFrom messages i) := by
  cases hget : messages[i]? with
  | none =>
    have hend : messages.length ≤ i := List.getElem?_eq_none_iff.mp hget
    rw [keptFrom, keptFrom, List.take_of_length_le hend, List.take_of_length_le (by omega),
      List.drop_eq_nil_of_le hend, List.drop_eq_nil_of_le (by omega)]
  | some m =>
    cases hsystem : isSystemMessage m with
    | true => rw [keptFrom_succ hget hsystem]
    | false =>
      obtain ⟨hlt, rfl⟩ := List.getElem?_eq_some_iff.mp hget
      have hfront : (messages.take (i + 1)).filter isSystemMessage =
          (messages.take i).filter isSystemMessage := by
        rw [List.take_succ_eq_append_getElem hlt, List.filter_append]
        simp [hsystem]
      rw [keptFrom, keptFrom, hfront, List.drop_eq_getElem_cons hlt]
      exact (List.sublist_cons_self _ _).append_left _

theorem keptFrom_sublist_of_le {k : ℕ} (hle : i ≤ k) :
    (keptFrom messages k).Sublist (keptFrom messages i) := by
  induction k, hle using Nat.le_induction with
  | base => exact .refl _
  | succ k _ ih => exact (keptFrom_succ_sublist messages k).trans ih

theorem droppedBefore_recentStart (messages : List Json) (recentK : ℕ) :
    droppedBefore messages (recentStart messages recentK) = (droppable messages recentK).length :=
  List.countP_eq_length_filter ..

/-- All that may be dropped is dropped exactly if nothing else is left out of the result. -/
theorem marked_recentStart_iff {dropped : ℕ} {out : List Json}
    (hi : i ≤ recentStart messages recentK) (h : Marked (keptFrom messages i) dropped out) :
    Marked (keptFrom messages (recentStart messages recentK)) dropped out ↔
      droppedBefore messages i = (droppable messages recentK).length := by
  have hall := length_keptFrom messages (recentStart messages recentK)
  have hsome := length_keptFrom messages i
  rw [droppedBefore_recentStart] at hall
  constructor
  · intro hmarked
    have hlength := hmarked.length.symm.trans h.length
    omega
  · intro hcount
    have hsub : (keptFrom messages (recentStart messages recentK)).Sublist (keptFrom messages i) :=
      keptFrom_sublist_of_le hi
    rwa [hsub.eq_of_length (by omega)]

/-- The result without its placeholder is a subsequence of the messages, with every system message
and the recent ones; what is dropped is a first part of what may be dropped, as long as
`TrimReport.dropped` says; there is a placeholder exactly if something is dropped. -/
theorem prune_keepsShape (count : List Json → ℕ) (messages : List Json) (budget recentK : ℕ) :
    let (out, report) := pruneToBudget count messages budget recentK
    ∃ kept, Marked kept report.dropped out ∧ kept.Sublist messages ∧
      kept.filter isSystemMessage = messages.filter isSystemMessage ∧
      messages.drop (messages.length - max recentK 1) <:+ kept ∧
      ∃ front back, messages = front ++ back ∧ front.length ≤ messages.length - max recentK 1 ∧
        kept = front.filter isSystemMessage ++ back ∧
        front.filter (fun m => !isSystemMessage m) =
          (droppable messages recentK).take report.dropped ∧
        report.dropped ≤ (droppable messages recentK).length := by
  by_cases hfits : count messages ≤ budget
  · rw [pruneToBudget, if_pos hfits]
    exact ⟨messages, .whole, .refl _, rfl, List.drop_suffix _ _, [], messages, rfl,
      Nat.zero_le _, rfl, rfl, Nat.zero_le _⟩
  obtain ⟨i, s, hpruned, hresult⟩ :=
    pruneToBudget_of_over recentK (Nat.lt_of_not_le hfits)
  rw [hresult]
  have hmarked : Marked (keptFrom messages i) s.dropped
      (if 0 < s.dropped then insertPlaceholder (keptFrom messages i) else keptFrom messages i) := by
    by_cases hdropped : 0 < s.dropped
    · rw [if_pos hdropped]
      exact insertPlaceholder_marked _ hdropped
    · rw [if_neg hdropped, Nat.eq_zero_of_not_pos hdropped]
      exact .whole
  have hlength : (messages.take i).length ≤ messages.length - max recentK 1 := by
    have := hpruned.within
    rw [List.length_take]
    unfold recentStart at this
    omega
  refine ⟨keptFrom messages i, hmarked, keptFrom_sublist messages i, filter_keptFrom messages i,
    drop_suffix_keptFrom hpruned.within, messages.take i, messages.drop i,
    (List.take_append_drop i messages).symm, hlength, rfl, ?_, ?_⟩
  · rw [hpruned.looked.dropped]
    exact filter_take hpruned.within
  · rw [hpruned.looked.dropped]
    exact droppedBefore_le hpruned.within

end Shape

/-! ## The bounds -/

namespace TokenCount
variable {w : TokenCount} {messages : List Json} {budget recentK i : ℕ}

/-- What the first `n` messages that may be dropped count for. -/
def freed (w : TokenCount) (messages : List Json) (recentK n : ℕ) : ℕ :=
  (((droppable messages recentK).take n).map w.perMessage).sum

/-- What a pruned list keeps to: it is over the budget only where all that may be dropped is, and it
does not grow. -/
def Bounded (w : TokenCount) (messages : List Json) (budget recentK : ℕ) : Prop :=
  let (out, report) := pruneToBudget w.count messages budget recentK
  (budget < w.count out →
      Marked (keptFrom messages (recentStart messages recentK)) report.dropped out) ∧
    report.budgetAfter ≤ report.initial

/-- Where the fewest messages are dropped with which the rest fits, or all of them, they outweigh the
placeholder, and it fits with the rest unless they are all. -/
def PlaceholderFits (w : TokenCount) (messages : List Json) (budget recentK : ℕ) : Prop :=
  ∀ n < (droppable messages recentK).length,
    budget + w.freed messages recentK n < w.count messages →
    (n + 1 = (droppable messages recentK).length ∨
      w.count messages ≤ budget + w.freed messages recentK (n + 1)) →
    w.perMessage placeholder ≤ w.freed messages recentK (n + 1) ∧
      (n + 1 = (droppable messages recentK).length ∨
        w.count messages + w.perMessage placeholder ≤ budget + w.freed messages recentK (n + 1))

theorem count_append (w : TokenCount) (front back : List Json) :
    w.count (front ++ back) = (front.map w.perMessage).sum + w.count back := by
  simp [count, Nat.add_assoc]

theorem sum_filter_not (w : TokenCount) (ms : List Json) :
    ((ms.filter isSystemMessage).map w.perMessage).sum +
        ((ms.filter fun m => !isSystemMessage m).map w.perMessage).sum = (ms.map w.perMessage).sum := by
  induction ms with
  | nil => rfl
  | cons m ms ih =>
    cases hm : isSystemMessage m with
    | true =>
      simp [hm]
      omega
    | false =>
      simp [hm]
      omega

/-- What is kept and what is freed make up the list. -/
theorem count_keptFrom (hi : i ≤ recentStart messages recentK) :
    w.count (keptFrom messages i) + w.freed messages recentK (droppedBefore messages i) =
      w.count messages := by
  have hfront := sum_filter_not w (messages.take i)
  have hcut := w.count_append (messages.take i) (messages.drop i)
  rw [List.take_append_drop] at hcut
  rw [keptFrom, count_append, freed, ← filter_take hi]
  omega

theorem freed_mono (w : TokenCount) (messages : List Json) (recentK : ℕ) {n k : ℕ} (hle : n ≤ k) :
    w.freed messages recentK n ≤ w.freed messages recentK k := by
  have hsub : ((droppable messages recentK).take n).Sublist ((droppable messages recentK).take k) :=
    (List.take_prefix_take_left hle).sublist
  exact (hsub.map w.perMessage).sum_le_sum fun _ _ => Nat.zero_le _

theorem count_insertPlaceholder (w : TokenCount) (kept : List Json) :
    w.count (insertPlaceholder kept) = w.count kept + w.perMessage placeholder := by
  have hle : kept.findIdx (fun m => !isSystemMessage m) ≤ kept.length := List.findIdx_le_length
  obtain ⟨front, back, hkept, hinsert⟩ := insertIdx_split kept hle placeholder
  rw [insertPlaceholder, hinsert]
  simp only [hkept, count, List.map_append, List.map_cons, List.sum_append, List.sum_cons]
  omega

/-- What the loop leaves tells which number of dropped messages makes the rest fit. -/
theorem Pruned.last {s : PruneState} (h : Pruned w.count messages budget recentK i s) {n : ℕ}
    (hdropped : droppedBefore messages i = n + 1) :
    budget + w.freed messages recentK n < w.count messages ∧
      (n + 1 = (droppable messages recentK).length ∨
        w.count messages ≤ budget + w.freed messages recentK (n + 1)) := by
  have hkept := count_keptFrom (w := w) h.within
  rw [hdropped] at hkept
  rcases h.ended with ⟨hend, hover⟩ | ⟨k, hprev, hlt, hover, hfits⟩
  · have hmono := w.freed_mono messages recentK (Nat.le_add_right n 1)
    rw [← hdropped, hend, droppedBefore_recentStart]
    exact ⟨by omega, .inl rfl⟩
  · have hbefore := count_keptFrom (w := w) (hlt.le.trans h.within)
    obtain rfl : droppedBefore messages k = n := by omega
    exact ⟨by omega, .inr (by omega)⟩

/-- The fewest messages with which the rest fits are those that are dropped. -/
theorem Pruned.unique {s : PruneState} (h : Pruned w.count messages budget recentK i s) {n : ℕ}
    (hn : n < (droppable messages recentK).length)
    (hover : budget + w.freed messages recentK n < w.count messages)
    (hfits : n + 1 = (droppable messages recentK).length ∨
      w.count messages ≤ budget + w.freed messages recentK (n + 1)) :
    droppedBefore messages i = n + 1 := by
  have hle := droppedBefore_le h.within
  have hkept := count_keptFrom (w := w) h.within
  have hmore : n + 1 ≤ droppedBefore messages i := by
    rcases h.ended with ⟨hend, -⟩ | ⟨k, -, -, -, hunder⟩
    · rw [hend, droppedBefore_recentStart]
      omega
    · by_contra hless
      have hmono := w.freed_mono messages recentK
        (Nat.le_of_lt_succ (Nat.lt_of_not_le hless))
      omega
  rcases hfits with hall | hunder
  · omega
  · rcases h.ended with ⟨hend, hstill⟩ | ⟨k, hprev, hlt, hstill, -⟩
    · have hmono := w.freed_mono messages recentK hmore
      omega
    · have hbefore := count_keptFrom (w := w) (hlt.le.trans h.within)
      by_contra hne
      have hmono := w.freed_mono messages recentK
        (show n + 1 ≤ droppedBefore messages k by omega)
      omega

/-- The result keeps to its bounds exactly if the placeholder fits in what is dropped. -/
theorem prune_bounded_iff (w : TokenCount) (messages : List Json) (budget recentK : ℕ) :
    w.Bounded messages budget recentK ↔ w.PlaceholderFits messages budget recentK := by
  by_cases hwhole : w.count messages ≤ budget
  · have hbounded : w.Bounded messages budget recentK := by
      rw [Bounded, pruneToBudget, if_pos hwhole]
      exact ⟨fun hover => absurd hwhole (Nat.not_le.mpr hover), le_rfl⟩
    refine iff_of_true hbounded fun n _ hover => ?_
    omega
  obtain ⟨i, s, hpruned, hresult⟩ :=
    pruneToBudget_of_over recentK (Nat.lt_of_not_le hwhole)
  have hkept := count_keptFrom (w := w) hpruned.within
  rw [Bounded, hresult, hpruned.looked.dropped]
  dsimp only
  cases hdropped : droppedBefore messages i with
  | zero =>
    have hnone : (droppable messages recentK).length = 0 := by
      rcases hpruned.ended with ⟨hend, -⟩ | ⟨k, hprev, -⟩
      · rw [← hdropped, hend, droppedBefore_recentStart]
      · omega
    rw [if_neg (Nat.lt_irrefl 0)]
    refine iff_of_true ⟨fun _ => ?_, by omega⟩ fun n hn => ?_
    · rw [marked_recentStart_iff hpruned.within .whole, hdropped, hnone]
    · omega
  | succ n =>
    have hle := droppedBefore_le hpruned.within
    rw [if_pos n.succ_pos, count_insertPlaceholder,
      marked_recentStart_iff hpruned.within (insertPlaceholder_marked _ n.succ_pos)]
    rw [hdropped] at hkept hle ⊢
    obtain ⟨hover, hfits⟩ := Pruned.last hpruned hdropped
    constructor
    · rintro ⟨hall, hgrown⟩ k hk hover' hfits'
      have hsame := Pruned.unique hpruned hk hover' hfits'
      obtain rfl : n = k := by omega
      exact ⟨by omega, by omega⟩
    · intro hplaced
      obtain ⟨hheavy, hroom⟩ := hplaced n hle hover hfits
      exact ⟨by omega, by omega⟩

/-- A token for each byte. -/
def bytes : TokenCount :=
  { perMessage := messageTokens String.utf8ByteSize, priming := PRIMING_TOKENS }

/-- Two short messages, one token over the budget: the placeholder outweighs the one dropped. -/
theorem pruned_list_grows :
    ¬ ∀ (w : TokenCount) (messages : List Json) (budget recentK : ℕ),
      w.Bounded messages budget recentK := by
  intro hall
  have hgrown := (hall bytes [message "user" "a", message "user" "b"] 19 1).2
  revert hgrown
  decide +kernel

end TokenCount
end Veronex
