import Veronex.Mcp.CanonicalJson
import Veronex.Properties.McpLoop

/-! # When a call is taken for a loop

`quick_args_hash` of `infrastructure/outbound/mcp/bridge.rs`, of which a call's signature is made,
and the calls a tool loop has counted. SHA-256 is a parameter.

`loop_detected_iff`: the loop is left at the call whose signature is there for the third time, and
which calls have one signature.
-/
namespace Veronex
set_option autoImplicit false
open Concurrency

def MAX_ARGS_FOR_HASH_BYTES : ℕ := 4096

/-- `hex::encode` -/
def hexEncode (bytes : List UInt8) : String :=
  String.ofList ((bytes.flatMap fun b => [b.toNat / 16, b.toNat % 16]).map Nat.digitChar)

/-- The first four bytes of the digest of the first `MAX_ARGS_FOR_HASH_BYTES` bytes. -/
def argsDigest (sha256 : List UInt8 → List UInt8) (argsStr : String) : List UInt8 :=
  (sha256 (argsStr.toByteArray.data.toList.take MAX_ARGS_FOR_HASH_BYTES)).take 4

def quickArgsHash (sha256 : List UInt8 → List UInt8) (argsStr : String) : String :=
  hexEncode (argsDigest sha256 argsStr)

/-- The bridge with this SHA-256. -/
def Bridge.hashing (b : Bridge) (sha256 : List UInt8 → List UInt8) : Bridge :=
  { b with quickArgsHash := Veronex.quickArgsHash sha256 }

theorem hexEncode_inj {bytes bytes' : List UInt8} (h : hexEncode bytes = hexEncode bytes') :
    bytes = bytes' := by
  have hdigits : ∀ l : List UInt8,
      ∀ d ∈ l.flatMap fun b => [b.toNat / 16, b.toNat % 16], d < 16 := by
    intro l d hd
    obtain ⟨b, -, hb⟩ := List.mem_flatMap.mp hd
    have hlt := b.toNat_lt
    simp only [List.mem_cons, List.not_mem_nil, or_false] at hb
    omega
  have hsame := Mcp.digitChars_inj (hdigits bytes) (hdigits bytes') (String.ofList_injective h)
  clear h
  induction bytes generalizing bytes' with
  | nil =>
    cases bytes' with
    | nil => rfl
    | cons b bytes' => simp at hsame
  | cons a bytes ih =>
    cases bytes' with
    | nil => simp at hsame
    | cons b bytes' =>
      simp only [List.flatMap_cons, List.cons_append, List.nil_append, List.cons.injEq] at hsame
      have hab : a = b := UInt8.toNat_inj.mp (by omega)
      rw [hab, ih hsame.2.2]

/-! ## The calls of a loop -/

section Calls
variable (b : Bridge) (call : LoopCall)

/-- The tool and the arguments that the model selects in a round. -/
def LoopState.selected (round : ℕ) (s : LoopState) : Option (String × Json) :=
  match s.roundSchema call round with
  | none => none
  | some schema =>
    let req := call.request (s.roundMessages call round) schema
    match b.submit round req, b.collectRound round req with
    | .ok _, .ok result =>
      match parseForcedAction b.fromStr result.content with
      | .tool name args => some (name, args)
      | .final _ | .refuse _ => none
    | _, _ => none

/-- What the loop counts a call under. -/
def callSignature (c : String × Json) : String × String := (c.1, b.quickArgsHash (b.toStr c.2))

/-- The calls of the first `n` rounds. -/
def selectedCalls (s₀ : LoopState) (n : ℕ) : List (String × Json) :=
  (List.range n).filterMap fun round =>
    (before (loopBody b call) s₀ round).bind (LoopState.selected b call round)

end Calls

section Counting
variable {b : Bridge} {call : LoopCall} {s₀ s : LoopState} {round : ℕ}

theorem selectedCalls_succ (hs : before (loopBody b call) s₀ round = some s) :
    selectedCalls b call s₀ (round + 1) =
      selectedCalls b call s₀ round ++ (s.selected b call round).toList := by
  rw [selectedCalls, List.range_succ, List.filterMap_append, ← selectedCalls]
  cases hcall : s.selected b call round with
  | none => simp [hs, hcall]
  | some c => simp [hs, hcall]

theorem callSigCounts_acting (call : LoopCall) (round : ℕ) (s : LoopState) (jobId : Uuid)
    (result : RoundResult) :
    ((s.inFlight call round jobId).collected round result).callSigCounts = s.callSigCounts := by
  unfold LoopState.collected LoopState.inFlight LoopState.submitted
  dsimp only
  split
  · rfl
  · rfl

/-- A round acts on the tool the model selects, or ends the loop otherwise. -/
theorem runRound_cases (b : Bridge) (call : LoopCall) (round : ℕ) (s : LoopState) :
    (∃ (c : String × Json) (jobId : Uuid) (s' : LoopState), s.selected b call round = some c ∧
        s'.callSigCounts = s.callSigCounts ∧
        s.runRound b call round = s'.acted b round jobId (.tool c.1 c.2)) ∨
      s.selected b call round = none ∧
        ∃ t e, s.runRound b call round = .stop t e ∧ e ≠ .loopDetected := by
  unfold LoopState.selected LoopState.runRound
  cases hschema : s.roundSchema call round with
  | none => exact .inr ⟨rfl, s, .schemaFailed, rfl, by simp⟩
  | some schema =>
    dsimp only
    cases hsubmit : b.submit round (call.request (s.roundMessages call round) schema) with
    | error e => exact .inr ⟨rfl, _, .submitFailed, rfl, by simp⟩
    | ok jobId =>
      cases hcollect : b.collectRound round (call.request (s.roundMessages call round) schema) with
      | error e => exact .inr ⟨rfl, _, .roundFailed round e, rfl, by simp⟩
      | ok result =>
        dsimp only
        have hcounts := callSigCounts_acting call round s jobId result
        cases haction : parseForcedAction b.fromStr result.content with
        | final answer => exact .inr ⟨rfl, _, .final, rfl, by simp⟩
        | refuse reason => exact .inr ⟨rfl, _, .refuse, rfl, by simp⟩
        | tool name args => exact .inl ⟨(name, args), jobId, _, rfl, hcounts, rfl⟩

/-- What follows from a call that is counted. -/
theorem acted_tool_cases (b : Bridge) (round : ℕ) (s : LoopState) (jobId : Uuid)
    (c : String × Json) :
    (s.callSigCounts (callSignature b c) + 1 < LOOP_DETECT_THRESHOLD ∧
        ∃ t, s.acted b round jobId (.tool c.1 c.2) = .next t ∧ t.callSigCounts =
          Function.update s.callSigCounts (callSignature b c)
            (s.callSigCounts (callSignature b c) + 1)) ∨
      LOOP_DETECT_THRESHOLD ≤ s.callSigCounts (callSignature b c) + 1 ∧
        ∃ t, s.acted b round jobId (.tool c.1 c.2) = .stop t .loopDetected := by
  have hcount : (s.counted (callSignature b c)).callSigCounts (callSignature b c) =
      s.callSigCounts (callSignature b c) + 1 := by simp [LoopState.counted]
  have hacted : ∃ t, s.acted b round jobId (.tool c.1 c.2) =
      if LOOP_DETECT_THRESHOLD ≤ s.callSigCounts (callSignature b c) + 1 then .stop t .loopDetected
      else .next ((s.counted (callSignature b c)).executed b round jobId c.1 c.2) := by
    rw [← hcount]
    exact ⟨_, rfl⟩
  obtain ⟨t, hacted⟩ := hacted
  rw [hacted]
  by_cases hthird : LOOP_DETECT_THRESHOLD ≤ s.callSigCounts (callSignature b c) + 1
  · rw [if_pos hthird]
    exact .inr ⟨hthird, t, rfl⟩
  · rw [if_neg hthird]
    exact .inl ⟨by omega, _, rfl, rfl⟩

/-- The counts are those of the calls so far, none of which has come up too often. -/
structure Counts (b : Bridge) (call : LoopCall) (s₀ : LoopState) (round : ℕ) (s : LoopState) :
    Prop where
  counted : ∀ sig, s.callSigCounts sig =
    (selectedCalls b call s₀ round).countP fun c => callSignature b c = sig
  below : ∀ sig, s.callSigCounts sig < LOOP_DETECT_THRESHOLD

theorem Counts.next {t : LoopState} (hs : before (loopBody b call) s₀ round = some s)
    (h : Counts b call s₀ round s) (hnext : loopBody b call round s = .next t) :
    Counts b call s₀ (round + 1) t := by
  have hbody : s.runRound b call round = .next t := hnext
  rcases runRound_cases b call round s with ⟨c, jobId, s', hselected, hsame, hact⟩ |
    ⟨-, u, e, hstop, -⟩
  · rcases acted_tool_cases b round s' jobId c with ⟨hfew, t', ht, hcounts⟩ | ⟨-, u, hstop⟩
    · obtain rfl : t' = t := LoopStep.next.inj (ht.symm.trans (hact.symm.trans hbody))
      rw [hsame] at hcounts hfew
      constructor
      · intro sig
        rw [hcounts, selectedCalls_succ hs, hselected, List.countP_append, ← h.counted sig]
        by_cases hsig : sig = callSignature b c
        · simp [hsig]
        · simp [Function.update_of_ne hsig, Ne.symm hsig]
      · intro sig
        rw [hcounts]
        by_cases hsig : sig = callSignature b c
        · simpa [hsig] using hfew
        · simpa [Function.update_of_ne hsig] using h.below sig
    · rw [hact, hstop] at hbody
      cases hbody
  · rw [hstop] at hbody
    cases hbody

theorem counts_before {prompt : String} {messages : List Json}
    (hs : before (loopBody b call) (initialState prompt messages) round = some s) :
    Counts b call (initialState prompt messages) round s :=
  before_invariant (I := Counts b call (initialState prompt messages))
    ⟨fun _ => rfl, fun _ => Nat.succ_pos 2⟩ (fun _ _ _ hu hcounts hnext => hcounts.next hu hnext) hs

/-- The loop is left at a call exactly if its signature is there for the third time. -/
theorem detected_iff_countP {prompt : String} {messages : List Json} {c : String × Json}
    (hs : before (loopBody b call) (initialState prompt messages) round = some s)
    (hselected : s.selected b call round = some c) :
    (∃ t, loopBody b call round s = .stop t .loopDetected) ↔
      ((selectedCalls b call (initialState prompt messages) (round + 1)).countP fun c' =>
        callSignature b c' = callSignature b c) = LOOP_DETECT_THRESHOLD := by
  have hcounts := counts_before hs
  have hbelow := hcounts.below (callSignature b c)
  have hlast : ((selectedCalls b call (initialState prompt messages) (round + 1)).countP fun c' =>
      callSignature b c' = callSignature b c) = s.callSigCounts (callSignature b c) + 1 := by
    rw [selectedCalls_succ hs, hselected, List.countP_append, ← hcounts.counted]
    simp
  rw [hlast]
  rcases runRound_cases b call round s with ⟨c', jobId, s', hselected', hsame, hact⟩ | ⟨hnone, -⟩
  · obtain rfl : c' = c := Option.some.inj (hselected'.symm.trans hselected)
    rw [← hsame] at hbelow ⊢
    rcases acted_tool_cases b round s' jobId c' with ⟨hfew, t, hnext, -⟩ | ⟨hthird, t, hstop⟩
    · refine iff_of_false ?_ (by omega)
      rintro ⟨u, hu⟩
      have hbody := hnext.symm.trans (hact.symm.trans hu)
      cases hbody
    · exact iff_of_true ⟨t, hact.trans hstop⟩ (by omega)
  · rw [hnone] at hselected
    cases hselected

end Counting

/-! ## Signatures -/

/-- Two calls have one signature exactly if they are of one tool and their digests agree. -/
theorem callSignature_hashing (b : Bridge) (sha256 : List UInt8 → List UInt8)
    (c c' : String × Json) :
    callSignature (b.hashing sha256) c = callSignature (b.hashing sha256) c' ↔
      c.1 = c'.1 ∧ argsDigest sha256 (b.toStr c.2) = argsDigest sha256 (b.toStr c'.2) := by
  rw [callSignature, callSignature, Prod.mk.injEq]
  refine and_congr_right fun _ => ⟨fun h => hexEncode_inj h, fun h => ?_⟩
  exact congrArg hexEncode h

/-- The loop is left at a call exactly if its tool and the digest of its arguments are there for the
third time. -/
theorem loop_detected_iff (sha256 : List UInt8 → List UInt8) (b : Bridge) (call : LoopCall)
    (prompt : String) (messages : List Json) {round : ℕ} {s : LoopState} {c : String × Json}
    (hs : before (loopBody (b.hashing sha256) call) (initialState prompt messages) round = some s)
    (hselected : s.selected (b.hashing sha256) call round = some c) :
    (∃ t, loopBody (b.hashing sha256) call round s = .stop t .loopDetected) ↔
      ((selectedCalls (b.hashing sha256) call (initialState prompt messages) (round + 1)).countP
        fun c' => c'.1 = c.1 ∧
          argsDigest sha256 (b.toStr c'.2) = argsDigest sha256 (b.toStr c.2)) =
        LOOP_DETECT_THRESHOLD := by
  rw [detected_iff_countP hs hselected]
  simp only [callSignature_hashing]

/-! ## Two runs -/

/-- The digest of the text of an empty object. -/
def emptyObjectSha256 (_ : List UInt8) : List UInt8 :=
  [0x44, 0x13, 0x6f, 0xa3, 0x55, 0xb3, 0x67, 0x8a, 0x11, 0x46, 0xad, 0x16, 0xf7, 0xe8, 0x64, 0x9e,
    0x94, 0xfb, 0x4f, 0xc2, 0x1f, 0xe7, 0x7e, 0x83, 0x10, 0xc0, 0x60, 0xf6, 0x1c, 0xaa, 0xff, 0x8a]

/-- Every round calls the sample tool. -/
def sameTool : Bridge := sampleBridge fun _ => .ok ⟨toolText, 10, 5⟩

theorem third_call_detected : ∃ s,
    before (loopBody (sameTool.hashing emptyObjectSha256) (sampleCall 5))
        (initialState "" sampleMessages) 2 = some s ∧
      ((∃ t, loopBody (sameTool.hashing emptyObjectSha256) (sampleCall 5) 2 s =
          .stop t .loopDetected) ↔
        ((selectedCalls (sameTool.hashing emptyObjectSha256) (sampleCall 5)
            (initialState "" sampleMessages) (2 + 1)).countP fun c' => c'.1 = "f" ∧
              argsDigest emptyObjectSha256 (sameTool.toStr c'.2) =
                argsDigest emptyObjectSha256 (sameTool.toStr (.obj []))) =
          LOOP_DETECT_THRESHOLD) := by
  refine ⟨_, rfl, ?_⟩
  exact loop_detected_iff emptyObjectSha256 sameTool (sampleCall 5) "" sampleMessages
    (c := ("f", .obj [])) rfl rfl

/-- What the loop would be with whole arguments: it is left at the third call of a tool with the same
arguments and nowhere else, and calls with other arguments are other calls. -/
structure CountsArguments (b : Bridge) (call : LoopCall) (prompt : String) (messages : List Json) :
    Prop where
  third : ∀ round s c, before (loopBody b call) (initialState prompt messages) round = some s →
    s.selected b call round = some c →
    ((∃ t, loopBody b call round s = .stop t .loopDetected) ↔
      ((selectedCalls b call (initialState prompt messages) (round + 1)).countP fun c' =>
        c'.1 = c.1 ∧ b.toStr c'.2 = b.toStr c.2) = LOOP_DETECT_THRESHOLD)
  apart : ∀ c c', b.toStr c.2 ≠ b.toStr c'.2 → callSignature b c ≠ callSignature b c'

/-- Texts are written as they are, in quotes. -/
def textBridge : Bridge :=
  { sameTool with
    toStr := fun v =>
      match v with
      | .str s => "\"" ++ s ++ "\""
      | v => sameTool.toStr v }

/-- A text of as many letters. -/
def letters : ℕ → String
  | 0 => ""
  | n + 1 => letters n ++ "a"

theorem utf8ByteSize_letters (n : ℕ) : (letters n).utf8ByteSize = n := by
  induction n with
  | zero => rfl
  | succ n ih =>
    rw [letters, String.utf8ByteSize_append, ih]
    rfl

/-- Of long texts only the front is looked at. -/
theorem argsDigest_append (sha256 : List UInt8 → List UInt8) (front back back' : String)
    (hlong : MAX_ARGS_FOR_HASH_BYTES ≤ front.utf8ByteSize) :
    argsDigest sha256 (front ++ back) = argsDigest sha256 (front ++ back') := by
  have htake : ∀ back : String,
      (front ++ back).toByteArray.data.toList.take MAX_ARGS_FOR_HASH_BYTES =
        front.toByteArray.data.toList.take MAX_ARGS_FOR_HASH_BYTES := by
    intro back
    rw [String.toByteArray_append, ByteArray.data_append, Array.toList_append]
    exact List.take_append_of_le_length hlong
  rw [argsDigest, argsDigest, htake back, htake back']

theorem long_arguments_collide :
    ¬ ∀ (sha256 : List UInt8 → List UInt8) (b : Bridge) (call : LoopCall) (prompt : String)
      (messages : List Json), Function.Injective sha256 →
      CountsArguments (b.hashing sha256) call prompt messages := by
  intro hall
  obtain ⟨front, hfront⟩ : ∃ front : String, MAX_ARGS_FOR_HASH_BYTES ≤ front.utf8ByteSize :=
    ⟨letters MAX_ARGS_FOR_HASH_BYTES, (utf8ByteSize_letters _).ge⟩
  have htext : ∀ last : String, (textBridge.hashing id).toStr (.str (front ++ last)) =
      ("\"" ++ front) ++ (last ++ "\"") := by
    intro last
    show "\"" ++ (front ++ last) ++ "\"" = _
    rw [String.append_assoc, String.append_assoc, String.append_assoc]
  have hlong : MAX_ARGS_FOR_HASH_BYTES ≤ ("\"" ++ front).utf8ByteSize := by
    rw [String.utf8ByteSize_append]
    omega
  refine (hall id textBridge (sampleCall 5) "" sampleMessages Function.injective_id).apart
    ("f", .str (front ++ "b")) ("f", .str (front ++ "c")) ?_ ?_
  · rw [htext, htext]
    intro hsame
    have hlast := String.toList_inj.mpr hsame
    simp at hlast
  · rw [callSignature_hashing]
    refine ⟨rfl, ?_⟩
    have hsame := argsDigest_append id ("\"" ++ front) ("b" ++ "\"") ("c" ++ "\"") hlong
    rwa [← htext, ← htext] at hsame

end Veronex
