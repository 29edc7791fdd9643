import Veronex.Domain.Values

/-! # The think-block filter

`TokenStreamState` and `strip_think_blocks` of `application/use_cases/inference/runner.rs`. Strings
are lists of characters; a byte offset is a sum of `utf8Size`s, and draining at an offset inside a
character is the panic it is in the source (`none`).
-/
namespace Veronex
set_option autoImplicit false

def thinkOpen : List Char := "<think>".toList
def thinkClose : List Char := "</think>".toList

/-- `str::find`, as a character position. -/
def findSub (pat : List Char) : List Char → Option ℕ
  | [] => if pat = [] then some 0 else none
  | c :: s => if pat.isPrefixOf (c :: s) then some 0 else (findSub pat s).map (· + 1)

/-- The length in bytes. -/
def utf8Len (s : List Char) : ℕ := (s.map Char.utf8Size).sum

/-- `String::drain(..keep)`, `none` when `keep` is not a character boundary. -/
def drainBytes : ℕ → List Char → Option (List Char)
  | 0, s => some s
  | _ + 1, [] => none
  | keep + 1, c :: s => if c.utf8Size ≤ keep + 1 then drainBytes (keep + 1 - c.utf8Size) s else none

structure TokenStreamState where
  tokenCount : ℕ
  text : List Char
  thinkBuf : List Char
  inThink : Bool
  lastOwnerRefresh : Millis
  toolCalls : List Json
  promptTokens : Option ℕ
  completionTokens : Option ℕ
  cachedTokens : Option ℕ
  ttftMs : Option ℕ

/-- `TokenStreamState::default`, at time `now`. -/
def TokenStreamState.default (now : Millis) : TokenStreamState :=
  { tokenCount := 0, text := [], thinkBuf := [], inThink := false, lastOwnerRefresh := now
    toolCalls := [], promptTokens := none, completionTokens := none, cachedTokens := none
    ttftMs := none }

/-- The number of characters at the end of the buffer that could start a `<think>`. -/
def partialTag (buf : List Char) : ℕ :=
  ([6, 5, 4, 3, 2, 1].find? fun n => (thinkOpen.take n).isSuffixOf buf).getD 0

/-- The loop of `consume_text` over `think_buf` and `in_think`: what it emits and what it leaves.
Every round that goes on removes a tag, so the length of the buffer is fuel enough. -/
def consumeLoop : ℕ → List Char → Bool → Option (List Char × List Char × Bool)
  | 0, buf, inThink => some ([], buf, inThink)
  | fuel + 1, buf, true =>
    match findSub thinkClose buf with
    | some pos => consumeLoop fuel (buf.drop (pos + thinkClose.length)) false
    | none => (drainBytes (utf8Len buf - 8) buf).map fun rest => ([], rest, true)
  | fuel + 1, buf, false =>
    match findSub thinkOpen buf with
    | some pos =>
      (consumeLoop fuel (buf.drop (pos + thinkOpen.length)) true).map fun r =>
        (buf.take pos ++ r.1, r.2)
    | none =>
      let safe := buf.length - partialTag buf
      some (buf.take safe, buf.drop safe, false)

/-- `consume_text`: the emitted text and the state, `none` on a panic. -/
def TokenStreamState.consumeText (ts : TokenStreamState) (fragment : List Char) :
    Option (List Char × TokenStreamState) :=
  let buf := ts.thinkBuf ++ fragment
  (consumeLoop (buf.length + 1) buf ts.inThink).map fun r =>
    (r.1, { ts with thinkBuf := r.2.1, inThink := r.2.2 })

/-- The loop of `strip_think_blocks`; every round removes an opening tag. -/
def stripLoop : ℕ → List Char → List Char
  | 0, text => text
  | fuel + 1, text =>
    match findSub thinkOpen text with
    | none => text
    | some start =>
      match findSub thinkClose (text.drop start) with
      | some relEnd =>
        stripLoop fuel (text.take start ++ text.drop (start + relEnd + thinkClose.length))
      | none => text.take start

def stripThinkBlocks (text : List Char) : List Char := trim (stripLoop (text.length + 1) text)

/-- A multi-byte block that is streamed over several fragments is drained inside a character. -/
example : (({ TokenStreamState.default 0 with inThink := true }).consumeText "가나다".toList) = none := by
  decide

end Veronex
