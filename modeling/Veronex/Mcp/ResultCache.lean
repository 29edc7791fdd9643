import Veronex.Mcp.CanonicalJson
import Veronex.Mcp.ToolCache

/-! # The result cache

`McpResultCache` of `veronex-mcp/src/result_cache.rs`. A call of `get` or of `set` is one command to
Valkey, so a run is a list of such calls with time passing between them.
-/
namespace Veronex.Mcp
set_option autoImplicit false
open Concurrency Words

/-- `McpContent` -/
inductive McpContent
  | text (text : String)
  | image (data mimeType : String)
deriving DecidableEq

structure McpToolResult where
  content : List McpContent
  isError : Bool

/-- What the cache takes from outside: the characters that `{:?}` leaves, the first 16 hexadecimal
digits of SHA-256, which are assumed to differ for texts that differ, and `serde_json`. -/
structure Coding where
  printable : Char → Bool
  hex : String → String
  hex_injective : Function.Injective hex
  hex_colon : ∀ text, ':' ∉ (hex text).toList
  toText : List McpContent → Option String
  fromText : String → Option (List McpContent)
  fromText_toText : ∀ content text, toText content = some text → fromText text = some content

/-- A value with distinct keys in every object. -/
def Arguments : Type := { v : Json // ∀ n, ValidTo n v }

/-- Equal up to the order of keys, however deep. -/
def SameJson (a b : Arguments) : Prop := ∀ n, SameTo n a.1 b.1

/-! ## Keys -/

namespace Coding
variable (k : Coding)

def argsHash (toolName : String) (args : Arguments) : String :=
  k.hex (toolName ++ ":" ++ String.ofList (canonicalJson k.printable MAX_CANONICAL_DEPTH args.1))

def cacheKey (toolName : String) (args : Arguments) : String :=
  "veronex:mcp:result:" ++ toolName ++ ":" ++ k.argsHash toolName args

variable {k} {name name' : String} {args args' : Arguments}

theorem argsHash_eq_iff :
    k.argsHash name args = k.argsHash name args' ↔ SameTo MAX_CANONICAL_DEPTH args.1 args'.1 := by
  have hiff : canonicalJson k.printable MAX_CANONICAL_DEPTH args.1 =
      canonicalJson k.printable MAX_CANONICAL_DEPTH args'.1 ↔ _ :=
    canonicalJson_eq_iff (args.2 MAX_CANONICAL_DEPTH) (args'.2 MAX_CANONICAL_DEPTH)
  constructor
  · intro h
    have htext := congrArg String.toList (k.hex_injective h)
    simp only [String.toList_append, String.toList_ofList, List.append_assoc] at htext
    exact hiff.mp (List.append_cancel_left (List.append_cancel_left htext))
  · intro h
    rw [argsHash, argsHash, hiff.mpr h]

/-- What follows the last colon. -/
theorem split_at_colon {pre a b c d : String} (hc : ':' ∉ c.toList) (hd : ':' ∉ d.toList)
    (h : pre ++ a ++ ":" ++ c = pre ++ b ++ ":" ++ d) : a = b ∧ c = d := by
  have hlist : pre.toList ++ (a.toList ++ ':' :: c.toList) =
      pre.toList ++ (b.toList ++ ':' :: d.toList) := by
    simpa [String.toList_append, List.append_assoc] using congrArg String.toList h
  have hrest := congrArg List.reverse (List.append_cancel_left hlist)
  simp only [List.reverse_append, List.reverse_cons, List.append_assoc, List.singleton_append]
    at hrest
  have hfree : ∀ s : String, ':' ∉ s.toList → ∀ e ∈ s.toList.reverse, ¬ e = ':' := by
    rintro s hs e he rfl
    exact hs (List.mem_reverse.mp he)
  obtain ⟨hcd, hab⟩ := readable_word (· = ':') (hfree c hc) (hfree d hd) (ends_cons rfl)
    (ends_cons rfl) hrest
  have hab' := List.reverse_injective (List.cons.inj hab).2
  exact ⟨String.toList_inj.mp hab', String.toList_inj.mp (List.reverse_injective hcd)⟩

/-- A key is shared by the tools of one name, and by arguments that are equal as deep as the text
goes. -/
theorem cacheKey_eq_iff : k.cacheKey name args = k.cacheKey name' args' ↔
    name = name' ∧ SameTo MAX_CANONICAL_DEPTH args.1 args'.1 := by
  constructor
  · intro h
    obtain ⟨hname, hhash⟩ := split_at_colon (k.hex_colon _) (k.hex_colon _) h
    rw [hname] at hhash
    exact ⟨hname, argsHash_eq_iff.mp hhash⟩
  · rintro ⟨hname, hsame⟩
    have hhash : k.argsHash name' args = k.argsHash name' args' := argsHash_eq_iff.mpr hsame
    subst hname
    exact congrArg ("veronex:mcp:result:" ++ name ++ ":" ++ ·) hhash

end Coding

/-! ## Calls -/

/-- An entry: its text and when it expires, and the call of `set` that wrote it. -/
structure Written where
  tool : McpTool
  args : Arguments
  content : List McpContent
  text : String
  expiresAt : Millis

/-- `written` is what the calls of `set` wrote, the last one first. -/
structure ResultCache where
  now : Millis
  store : String → Option Written
  written : List Written

/-- `ok`: whether the command reaches Valkey. -/
inductive CacheCall
  | get (tool : McpTool) (args : Arguments) (ok : Bool)
  | set (tool : McpTool) (args : Arguments) (result : McpToolResult) (ttlSecs : ℤ) (ok : Bool)
  | elapse (ms : Millis)

namespace ResultCache
variable (k : Coding) (s : ResultCache)

def init (now : Millis) : ResultCache := { now, store := fun _ => none, written := [] }

/-- The value of a key that has not expired. -/
def live (key : String) : Option Written := (s.store key).filter fun w => s.now < w.expiresAt

def get (tool : McpTool) (args : Arguments) (ok : Bool) : Option McpToolResult :=
  if tool.canCache then
    if ok then do
      let w ← s.live (k.cacheKey tool.name args)
      let content ← k.fromText w.text
      some { content, isError := false }
    else none
  else none

def set (tool : McpTool) (args : Arguments) (result : McpToolResult) (ttlSecs : ℤ) (ok : Bool) :
    ResultCache :=
  if !tool.canCache || result.isError || ttlSecs ≤ 0 then s
  else match k.toText result.content with
    | none => s
    | some text =>
      if ok then
        let w : Written := { tool, args, content := result.content, text,
                             expiresAt := s.now + 1000 * ttlSecs.toNat }
        { s with store := Function.update s.store (k.cacheKey tool.name args) (some w)
                 written := w :: s.written }
      else s

def step : CacheCall → Option ResultCache
  | .get .. => some s
  | .set tool args result ttlSecs ok => some (s.set k tool args result ttlSecs ok)
  | .elapse ms => some { s with now := s.now + ms }

/-! ## The store and the calls -/

section
open Classical

/-- The last entry written for a tool of that name and arguments that are equal as deep as the text
goes. -/
noncomputable def lastWritten (name : String) (args : Arguments) : Option Written :=
  s.written.find? fun w =>
    decide (w.tool.name = name ∧ SameTo MAX_CANONICAL_DEPTH w.args.1 args.1)

end

/-- The store has, under each key, what was last written under it. -/
structure Consistent : Prop where
  store : ∀ key, s.store key =
    s.written.find? fun w => decide (k.cacheKey w.tool.name w.args = key)
  text : ∀ w ∈ s.written, k.toText w.content = some w.text

variable {k s} {s' : ResultCache} {call : CacheCall} {tool : McpTool} {args : Arguments}

theorem consistent_init (now : Millis) : (init now).Consistent k :=
  ⟨fun _ => rfl, by simp [init]⟩

theorem Consistent.set (hs : s.Consistent k) (result : McpToolResult) (ttlSecs : ℤ) (ok : Bool) :
    (s.set k tool args result ttlSecs ok).Consistent k := by
  rw [ResultCache.set]
  split
  · exact hs
  · split
    · exact hs
    · next text htext =>
      split
      · constructor
        · intro key
          have hrest := hs.store key
          by_cases hkey : k.cacheKey tool.name args = key
          · simp [hkey]
          · simp [hkey, Function.update_of_ne (Ne.symm hkey), hrest]
        · intro w hw
          rcases List.mem_cons.mp hw with rfl | hw
          · exact htext
          · exact hs.text w hw
      · exact hs

theorem Consistent.step (hs : s.Consistent k) (h : s.step k call = some s') :
    s'.Consistent k := by
  cases call with
  | get tool args ok =>
    obtain rfl := Option.some.inj h
    exact hs
  | set tool args result ttlSecs ok =>
    obtain rfl := Option.some.inj h
    exact hs.set result ttlSecs ok
  | elapse ms =>
    obtain rfl := Option.some.inj h
    exact ⟨hs.store, hs.text⟩

/-- What is found under a key. -/
theorem Consistent.store_eq (hs : s.Consistent k) (name : String) (args : Arguments) :
    s.store (k.cacheKey name args) = s.lastWritten name args := by
  rw [hs.store, lastWritten]
  congr 1
  funext w
  exact decide_eq_decide.mpr Coding.cacheKey_eq_iff

theorem get_eq_some_iff (hs : s.Consistent k) {ok : Bool} {r : McpToolResult} :
    s.get k tool args ok = some r ↔ tool.canCache = true ∧ ok = true ∧
      ∃ w, s.lastWritten tool.name args = some w ∧ s.now < w.expiresAt ∧
        r = { content := w.content, isError := false } := by
  have hdecode : ∀ w, s.lastWritten tool.name args = some w → k.fromText w.text = some w.content :=
    fun w hw => k.fromText_toText _ _ (hs.text w (List.mem_of_find?_eq_some hw))
  rw [get, live, hs.store_eq]
  split
  · next hcache =>
    split
    · next hok =>
      simp only [hcache, hok, true_and]
      cases hw : s.lastWritten tool.name args with
      | none => simp
      | some w =>
        have htext := hdecode w hw
        by_cases hlive : s.now < w.expiresAt
        · simp [Option.filter, hlive, htext, eq_comm]
        · simp [Option.filter, hlive]
    · next hok => simp [hok]
  · next hcache => simp [hcache]

/-! ## What a hit returns -/

/-- A hit returns what was stored for a tool of the same server and for equal arguments. -/
def Own (k : Coding) (s : ResultCache) : CacheCall → Prop
  | .get tool args ok => ∀ r, s.get k tool args ok = some r → ∃ w ∈ s.written,
      s.store (k.cacheKey tool.name args) = some w ∧ r.content = w.content ∧
        w.tool.serverId = tool.serverId ∧ SameJson w.args args
  | .set .. | .elapse _ => True

/-- The last entry for the name and for arguments that are equal down to the cut-off is not one of
another server, and not one for arguments that differ below. -/
def Separate (s : ResultCache) : CacheCall → Prop
  | .get tool args ok => tool.canCache = true → ok = true → ∀ w,
      s.lastWritten tool.name args = some w → s.now < w.expiresAt →
        w.tool.serverId = tool.serverId ∧ SameJson w.args args
  | .set .. | .elapse _ => True

theorem own_iff (hs : s.Consistent k) : s.Own k call ↔ s.Separate call := by
  cases call with
  | get tool args ok =>
    constructor
    · intro hown hcache hok w hw hlive
      have hget := (get_eq_some_iff hs).mpr ⟨hcache, hok, w, hw, hlive, rfl⟩
      obtain ⟨w', -, hstore, -, hserver, hargs⟩ := hown _ hget
      rw [hs.store_eq, hw] at hstore
      obtain rfl := Option.some.inj hstore
      exact ⟨hserver, hargs⟩
    · intro hsep r hget
      obtain ⟨hcache, hok, w, hw, hlive, rfl⟩ := (get_eq_some_iff hs).mp hget
      obtain ⟨hserver, hargs⟩ := hsep hcache hok w hw hlive
      have hstore := hs.store_eq tool.name args
      exact ⟨w, List.mem_of_find?_eq_some hw, hstore.trans hw, rfl, hserver, hargs⟩
  | set tool args result ttlSecs ok => exact Iff.rfl
  | elapse ms => exact Iff.rfl

theorem hits_own_iff (k : Coding) (now : Millis) (calls : List CacheCall) :
    (∀ name args args', SameJson args args' → k.cacheKey name args = k.cacheKey name args') ∧
    (EachStep (step k) (fun s call _ => s.Own k call) (init now) calls ↔
      EachStep (step k) (fun s call _ => s.Separate call) (init now) calls) := by
  constructor
  · intro name args args' hsame
    exact Coding.cacheKey_eq_iff.mpr ⟨rfl, hsame MAX_CANONICAL_DEPTH⟩
  · exact eachStep_congr_of (I := fun s => s.Consistent k) (fun _ _ _ hs h => hs.step h)
      (fun _ _ _ hs _ => own_iff hs) (consistent_init now) calls

end ResultCache

/-! ## Below the cut-off -/

/-- A value inside of arrays. -/
def nested : ℕ → Json → Json
  | 0, v => v
  | n + 1, v => .arr [nested n v]

theorem sameTo_nested (n : ℕ) (v v' : Json) : SameTo n (nested n v) (nested n v') := by
  induction n with
  | zero => trivial
  | succ n ih => exact .cons ih .nil

theorem not_sameTo_nested {v v' : Json} (h : ¬ SameTo 1 v v') (n : ℕ) :
    ¬ SameTo (n + 1) (nested n v) (nested n v') := by
  induction n with
  | zero => exact h
  | succ n ih =>
    intro hsame
    exact ih (List.forall₂_cons.mp hsame).1

/-- Two values inside of sixteen arrays have one key, whatever they are. -/
theorem cacheKey_nested (k : Coding) (name : String) {args args' : Arguments} {v v' : Json}
    (hargs : args.1 = nested MAX_CANONICAL_DEPTH v) (hargs' : args'.1 = nested MAX_CANONICAL_DEPTH v') :
    k.cacheKey name args = k.cacheKey name args' ∧ (¬ SameTo 1 v v' → ¬ SameJson args args') := by
  constructor
  · refine Coding.cacheKey_eq_iff.mpr ⟨rfl, ?_⟩
    rw [hargs, hargs']
    exact sameTo_nested MAX_CANONICAL_DEPTH v v'
  · intro hne hsame
    have hdeep := hsame (MAX_CANONICAL_DEPTH + 1)
    rw [hargs, hargs'] at hdeep
    exact not_sameTo_nested hne MAX_CANONICAL_DEPTH hdeep

/-! ## One name on two servers -/

theorem debugEscape_free {shown : Char → Bool} {e : Char} (hshown : shown e = false)
    (hshort : e ∉ DEBUG_SHORT.map Prod.snd) (hhex : ∀ d < 16, Nat.digitChar d ≠ e)
    (hmarks : e ∉ ['\\', 'u', '\x7b', '\x7d']) (c : Char) : e ∉ debugEscape shown c := by
  simp only [debugEscape, escaped]
  simp only [List.mem_cons, List.not_mem_nil, or_false, not_or] at hmarks
  obtain ⟨hescape, hu, hopen, hclose⟩ := hmarks
  split
  · next d hd =>
    have hde : e ≠ d := fun h => hshort (h ▸ List.mem_map_of_mem (mem_of_lookup_eq hd))
    simp [hescape, hde]
  · split
    · next hc =>
      have hce : e ≠ c := by
        rintro rfl
        rw [hshown] at hc
        cases hc
      simpa using hce
    · have hdigits : e ∉ hexDigits c.toNat := fun h => hexDigits_ne hhex _ _ h rfl
      simp [debugCode, hescape, hu, hopen, hclose, hdigits]

def colonEscape : Char → List Char := debugEscape fun c => c != ':'

/-- The digest of one text as it is, and another text for every other one. -/
def sampleHex (text : String) : String :=
  if text = "now:\x7b\x7d" then "00b4281a5af86fd3" else String.ofList (quoted colonEscape text)

theorem sampleHex_injective : Function.Injective sampleHex := by
  have hquoted : ∀ text : String, String.ofList (quoted colonEscape text) ≠ "00b4281a5af86fd3" := by
    intro text h
    have hhead := congrArg (fun s : String => s.toList.head?) h
    simp [quoted] at hhead
  intro a b h
  simp only [sampleHex] at h
  split at h
  · next ha =>
    split at h
    · next hb => rw [ha, hb]
    · exact absurd h.symm (hquoted b)
  · split at h
    · exact absurd h (hquoted a)
    · have hlist := String.ofList_injective h
      exact (debugQuoted_delimited _).inj trivial trivial hlist

theorem sampleHex_colon (text : String) : ':' ∉ (sampleHex text).toList := by
  rw [sampleHex]
  split
  · decide
  · have hescape : ∀ c, ':' ∉ colonEscape c :=
      debugEscape_free rfl (by decide) (by decide) (by decide)
    simp [quoted, hescape]

def sampleContent : List McpContent := [.text "12:00"]

def sampleText : String := "[\x7b\"type\":\"text\",\"text\":\"12:00\"\x7d]"

def sampleCoding : Coding where
  printable c := 32 ≤ c.toNat && c.toNat < 127
  hex := sampleHex
  hex_injective := sampleHex_injective
  hex_colon := sampleHex_colon
  toText content := if content = sampleContent then some sampleText else none
  fromText text := if text = sampleText then some sampleContent else none
  fromText_toText := by
    intro content text h
    split at h
    · next hcontent =>
      obtain rfl := Option.some.inj h
      simp [hcontent]
    · cases h

def noArguments : Arguments :=
  ⟨.obj [], fun n => by cases n <;> simp [ValidTo]⟩

def clockTool (serverId : Uuid) (serverName : String) : McpTool where
  name := "now"
  description := ""
  inputSchema := .obj []
  readOnlyHint := true
  idempotentHint := true
  serverId
  serverName

namespace ResultCache

theorem hit_of_other_server : ∃ calls : List CacheCall,
    ¬ EachStep (step sampleCoding) (fun s call _ => s.Own sampleCoding call) (init 0) calls := by
  let result : McpToolResult := { content := sampleContent, isError := false }
  let w : Written := { tool := clockTool 1 "paris", args := noArguments, content := sampleContent,
                       text := sampleText, expiresAt := 300000 }
  let s := (init 0).set sampleCoding (clockTool 1 "paris") noArguments result 300 true
  have hwritten : s.written = [w] := rfl
  have hs : s.Consistent sampleCoding := (consistent_init 0).set result 300 true
  refine ⟨[CacheCall.set (clockTool 1 "paris") noArguments result 300 true] ++
    [CacheCall.get (clockTool 2 "tokyo") noArguments true], fun hrun => ?_⟩
  have hown : s.Own sampleCoding (.get (clockTool 2 "tokyo") noArguments true) := hrun.last rfl rfl
  have hsame : SameTo MAX_CANONICAL_DEPTH noArguments.1 noArguments.1 := ⟨[], .nil, .refl _⟩
  have hlast : s.lastWritten "now" noArguments = some w := by
    have hname : w.tool.name = "now" := rfl
    have hargs : SameTo MAX_CANONICAL_DEPTH w.args.1 noArguments.1 := hsame
    simp [lastWritten, hwritten, hname, hargs]
  have hserver := ((own_iff hs).mp hown rfl rfl w hlast (by decide)).1
  exact absurd hserver (by decide)

end ResultCache

end Veronex.Mcp
