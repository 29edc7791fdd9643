import Veronex.Agent.Scrape
import Veronex.Foundation.Slices

/-! # The text of a node exporter

`parse_node_exporter`, `parse_line` and `parse_labels` of `veronex-agent/src/scraper.rs`. Positions are
bytes, and `none` is the panic of a slice that has its start after its end or cuts a character.
`str::parse::<f64>` and `f64::is_finite` are parameters.

`parse_total_iff`: which texts are parsed without a panic.
-/
namespace Veronex.Agent.NodeExporter
set_option autoImplicit false
open Slices

def MAX_LABELS : ℕ := 32

/-- Prefixes of the names of forwarded metrics. -/
def NODE_EXPORTER_ALLOWLIST : List String :=
  ["node_memory_MemTotal_bytes", "node_memory_MemAvailable_bytes", "node_memory_total_bytes",
    "node_memory_free_bytes", "node_cpu_seconds_total", "node_drm_", "node_hwmon_temp_celsius",
    "node_hwmon_power_average_watt", "node_hwmon_power_watt", "node_hwmon_chip_names",
    "node_hwmon_sensor_label"]

def CPU_MODE_ALLOWLIST : List String := ["user", "system", "iowait", "idle"]

abbrev Label := List Char × List Char

structure Gauge (F : Type) where
  name : List Char
  value : F
  labels : List Label

def isAllowed (name : List Char) : Bool :=
  NODE_EXPORTER_ALLOWLIST.any fun pre => pre.toList.isPrefixOf name

def isCpuModeAllowed (name : List Char) (labels : List Label) : Bool :=
  if name ≠ "node_cpu_seconds_total".toList then true
  else (labels.find? fun l => l.1 = "mode".toList).any fun l =>
    CPU_MODE_ALLOWLIST.any fun mode => mode.toList = l.2

/-- `str::lines`: a carriage return before a line feed is dropped with it. -/
def lines (text : List Char) : List (List Char) :=
  let pieces := text.splitOn '\n'
  let rest := pieces.getLast?.getD []
  (pieces.dropLast.map fun piece => if piece.getLast? = some '\r' then piece.dropLast else piece) ++
    if rest = [] then [] else [rest]

/-- `str::find` of a character. -/
def findChar (c : Char) (s : List Char) : Option ℕ := find Char.utf8Size c s

/-- `&s[..n]`. -/
def sliceTo (n : ℕ) (s : List Char) : Option (List Char) := upTo Char.utf8Size n s

/-- `&s[n..]`. -/
def sliceFrom (n : ℕ) (s : List Char) : Option (List Char) := startingAt Char.utf8Size n s

/-- `&s[i..j]`. -/
def sliceBetween (i j : ℕ) (s : List Char) : Option (List Char) := slice Char.utf8Size i j s

/-- Each round of the loop adds a label or ends it. -/
def labelLoop : ℕ → List Char → Option (List Label)
  | 0, _ => some []
  | room + 1, remaining =>
    if remaining = [] then some [] else
    match findChar '=' remaining with
    | none => some []
    | some eq => do
      let key ← sliceTo eq remaining
      let afterEq ← sliceFrom (eq + 1) remaining
      if afterEq.head? ≠ some '"' then return []
      let quoted ← sliceFrom 1 afterEq
      match findChar '"' quoted with
      | none => return []
      | some valEnd => do
        let val ← sliceBetween 1 (1 + valEnd) afterEq
        let advance := eq + 1 + 1 + valEnd + 1
        let next ← sliceFrom advance remaining
        let labels ← (if next.head? = some ',' then sliceFrom 1 next else some next).bind
          (labelLoop room)
        return (key, val) :: labels

def parseLabels (metricPart : List Char) : Option (List Label) :=
  match findChar '{' metricPart with
  | none => some []
  | some start =>
    match findChar '}' metricPart with
    | none => some []
    | some stop => (sliceBetween (start + 1) stop metricPart).bind (labelLoop MAX_LABELS)

section Parser
variable {F : Type} (parseF64 : List Char → Option F) (isFinite : F → Bool)

/-- The value is the first word after the boundary. -/
def valueOf (rest : List Char) : Option F := (splitWhitespace rest).head?.bind parseF64

/-- The inner `none` is the one of the source. -/
def parseLine (line : List Char) : Option (Option (List Char × F)) := do
  let splitAt ← match findChar '}' line with
    | some braceEnd =>
      (sliceFrom braceEnd line).map fun rest => (findChar ' ' rest).map fun i => braceEnd + i
    | none => some (findChar ' ' line)
  match splitAt with
  | none => return none
  | some splitAt =>
    let metricPart ← sliceTo splitAt line
    let rest ← sliceFrom (splitAt + 1) line
    return (valueOf parseF64 rest).map fun value => (metricPart, value)

def nameOf (metricPart : List Char) : Option (List Char) :=
  match findChar '{' metricPart with
  | some i => sliceTo i metricPart
  | none => some metricPart

/-- One round of the loop over the lines. -/
def scrapeLine (text : List Char) : Option (Option (Gauge F)) := do
  let line := trim text
  if line = [] ∨ line.head? = some '#' then return none
  match ← parseLine parseF64 line with
  | none => return none
  | some (metricPart, value) =>
    if !isFinite value then return none
    let name ← nameOf metricPart
    if !isAllowed name then return none
    let labels ← parseLabels metricPart
    if !isCpuModeAllowed name labels then return none
    return some { name, value, labels }

def parseNodeExporter (text : List Char) : Option (List (Gauge F)) :=
  (lines text).foldlM (fun gauges line =>
    (scrapeLine parseF64 isFinite line).map fun gauge => gauges ++ gauge.toList) []

end Parser

/-- A character that does not satisfy `p` is not in a text all of which does. -/
theorem not_mem_of_all {p : Char → Bool} {s : List Char} {c : Char} (h : ∀ d ∈ s, p d = true)
    (hc : p c = false) : c ∉ s := by
  intro hmem
  rw [h c hmem] at hc
  cases hc

/-! ## Words and lines -/

section Words
variable {lead word tail trail : List Char} {c : Char}

theorem splitWhitespace_space (hc : isWhitespace c = true) (s : List Char) :
    splitWhitespace (c :: s) = splitWhitespace s := by
  have hsplit : ([] ++ c :: s).splitOnP isWhitespace = [] :: s.splitOnP isWhitespace :=
    List.splitOnP_append_cons_of_forall_mem (by simp) c hc s
  rw [List.nil_append] at hsplit
  simp [splitWhitespace, hsplit]

/-- The first word of a text. -/
theorem head_splitWhitespace (hlead : ∀ d ∈ lead, isWhitespace d = true) (hne : word ≠ [])
    (hword : ∀ d ∈ word, isWhitespace d = false)
    (htail : ∀ d ∈ tail.head?, isWhitespace d = true) :
    (splitWhitespace (lead ++ (word ++ tail))).head? = some word := by
  induction lead with
  | cons c lead ih =>
    obtain ⟨hc, hlead⟩ := List.forall_mem_cons.mp hlead
    rw [List.cons_append, splitWhitespace_space hc, ih hlead]
  | nil =>
    cases tail with
    | nil =>
      rw [List.nil_append, List.append_nil, splitWhitespace, List.splitOnP_eq_singleton hword]
      simp [hne]
    | cons d tail =>
      have hd : isWhitespace d = true := htail d rfl
      rw [List.nil_append, splitWhitespace, List.splitOnP_append_cons_of_forall_mem hword d hd]
      simp [hne]

/-- The outer blanks are dropped. -/
theorem trim_blanks (hlead : ∀ d ∈ lead, isWhitespace d = true)
    (htrail : ∀ d ∈ trail, isWhitespace d = true) (hhead : ∀ d ∈ word.head?, isWhitespace d = false)
    (hlast : ∀ d ∈ word.getLast?, isWhitespace d = false) : trim (lead ++ (word ++ trail)) = word := by
  have hdrop : trim (lead ++ (word ++ trail)) = trim (word ++ trail) := by
    unfold trim
    rw [List.dropWhile_append_of_pos hlead]
  rw [hdrop]
  unfold trim
  cases word with
  | nil =>
    have hnil : List.dropWhile isWhitespace trail = [] := List.dropWhile_eq_nil_iff.mpr htrail
    rw [List.nil_append, hnil]
    rfl
  | cons d word =>
    have hd : ¬ isWhitespace d = true := by simp [hhead d rfl]
    rw [List.cons_append, List.dropWhile_cons_of_neg hd, ← List.cons_append]
    unfold List.rdropWhile
    rw [List.reverse_append, List.dropWhile_append_of_pos (by simpa using htrail)]
    have hrev : List.dropWhile isWhitespace (d :: word).reverse = (d :: word).reverse := by
      have hl := hlast
      rw [← List.head?_reverse] at hl
      cases hr : (d :: word).reverse with
      | nil => rfl
      | cons e rest =>
        rw [hr] at hl
        exact List.dropWhile_cons_of_neg (by simp [hl e rfl])
    rw [hrev, List.reverse_reverse]

theorem trim_concat {s : List Char} (hc : isWhitespace c = true) :
    trim (s ++ [c]) = trim s := by
  unfold trim
  rw [List.dropWhile_append]
  split
  · next h =>
    have hnil : List.dropWhile isWhitespace s = [] := by simpa using h
    rw [hnil, List.dropWhile_cons_of_pos hc]
    rfl
  · rw [List.rdropWhile_concat_pos _ _ _ hc]

/-- A carriage return before the line feed is trimmed. -/
theorem trim_withoutReturn (line : List Char) :
    trim (if line.getLast? = some '\r' then line.dropLast else line) = trim line := by
  split
  · next h =>
    obtain ⟨s, rfl⟩ := List.getLast?_eq_some_iff.mp h
    rw [List.dropLast_concat, trim_concat (by decide)]
  · rfl

/-- The lines of a text each line of which is ended by a line feed. -/
theorem lines_ended {xss : List (List Char)} (h : ∀ x ∈ xss, '\n' ∉ x) :
    lines (xss.flatMap fun x => x ++ ['\n']) =
      xss.map fun line => if line.getLast? = some '\r' then line.dropLast else line := by
  have hended := splitOn_ended h
  unfold lines
  simp only [hended]
  simp

end Words

/-! ## Slices at a character -/

section Slices
variable {c : Char} {u v x : List Char}

theorem findChar_append (h : c ∉ u) : findChar c (u ++ c :: v) = some (len Char.utf8Size u) :=
  find_append h

theorem findChar_eq_none (h : c ∉ u) : findChar c u = none := find_eq_none h

theorem sliceTo_append : sliceTo (len Char.utf8Size u) (u ++ v) = some u :=
  upTo_append Char.utf8Size_pos

theorem sliceFrom_append : sliceFrom (len Char.utf8Size u) (u ++ v) = some v :=
  startingAt_append Char.utf8Size_pos

/-- The characters that are looked for take one byte. -/
theorem sliceFrom_succ (hc : c.utf8Size = 1) :
    sliceFrom (len Char.utf8Size u + 1) (u ++ c :: v) = some v := by
  have h := @sliceFrom_append (u ++ [c]) v
  rwa [len_append, len_cons, hc, List.append_assoc] at h

theorem sliceBetween_succ (hc : c.utf8Size = 1) :
    sliceBetween (len Char.utf8Size u + 1) (len Char.utf8Size u + 1 + len Char.utf8Size x)
      (u ++ c :: (x ++ v)) = some x := by
  have h := @slice_append _ Char.utf8Size (u ++ [c]) v Char.utf8Size_pos x
  rwa [len_append, len_cons, hc, List.append_assoc] at h

end Slices

/-! ## The labels -/

section Labels
variable {s key val rest metricPart inner : List Char} {room : ℕ}

/-- The comma after a label is optional. -/
def skipComma (rest : List Char) : List Char := if rest.head? = some ',' then rest.tail else rest

theorem labelLoop_label (hkey : '=' ∉ key) (hval : '"' ∉ val) :
    labelLoop (room + 1) (key ++ '=' :: '"' :: (val ++ '"' :: rest)) =
      (labelLoop room (skipComma rest)).map fun labels => (key, val) :: labels := by
  have hnonempty : key ++ '=' :: '"' :: (val ++ '"' :: rest) ≠ [] := by simp
  have hafter : sliceFrom (len Char.utf8Size key + 1) (key ++ '=' :: '"' :: (val ++ '"' :: rest)) =
      some ('"' :: (val ++ '"' :: rest)) := sliceFrom_succ rfl
  have hquoted : sliceFrom 1 ('"' :: (val ++ '"' :: rest)) = some (val ++ '"' :: rest) :=
    @sliceFrom_succ '"' [] _ rfl
  have hval' : sliceBetween 1 (1 + len Char.utf8Size val) ('"' :: (val ++ '"' :: rest)) = some val :=
    @sliceBetween_succ '"' [] ('"' :: rest) val rfl
  have hnext : sliceFrom (len Char.utf8Size key + 1 + 1 + len Char.utf8Size val + 1)
      (key ++ '=' :: '"' :: (val ++ '"' :: rest)) = some rest := by
    have h := @sliceFrom_append (key ++ '=' :: '"' :: (val ++ ['"'])) rest
    have hlen : len Char.utf8Size (key ++ '=' :: '"' :: (val ++ ['"'])) =
        len Char.utf8Size key + 1 + 1 + len Char.utf8Size val + 1 := by
      have hone : Char.utf8Size '=' = 1 ∧ Char.utf8Size '"' = 1 := ⟨rfl, rfl⟩
      simp only [len_append, len_cons, len_nil, hone]
      omega
    rw [hlen] at h
    simpa using h
  have hcomma : (if rest.head? = some ',' then sliceFrom 1 rest else some rest) =
      some (skipComma rest) := by
    unfold skipComma
    split
    · next hhead =>
      obtain ⟨tail, rfl⟩ := List.head?_eq_some_iff.mp hhead
      exact @sliceFrom_succ ',' [] tail rfl
    · rfl
  rw [labelLoop, if_neg hnonempty, findChar_append hkey]
  simp only [sliceTo_append, hafter, hquoted, findChar_append hval, hval', hnext, hcomma,
    Option.bind_eq_bind, Option.bind_some, List.head?_cons, ne_eq, not_true_eq_false, if_false]
  cases labelLoop room (skipComma rest) <;> rfl

/-- Where the loop ends before the room is used up. -/
theorem labelLoop_end (h : ∀ key val rest, '=' ∉ key → '"' ∉ val →
    s ≠ key ++ '=' :: '"' :: (val ++ '"' :: rest)) : labelLoop room s = some [] := by
  cases room with
  | zero => rfl
  | succ room =>
    by_cases hs : s = []
    · rw [labelLoop, if_pos hs]
    by_cases heq : '=' ∈ s
    · obtain ⟨key, after, rfl, hkey⟩ := List.eq_append_cons_of_mem heq
      have hafter : sliceFrom (len Char.utf8Size key + 1) (key ++ '=' :: after) = some after :=
        sliceFrom_succ rfl
      rw [labelLoop, if_neg hs, findChar_append hkey]
      simp only [sliceTo_append, hafter, Option.bind_eq_bind, Option.bind_some]
      split
      · rfl
      · next hquote =>
        obtain ⟨quoted, rfl⟩ := List.head?_eq_some_iff.mp (not_not.mp hquote)
        have hquoted : sliceFrom 1 ('"' :: quoted) = some quoted := @sliceFrom_succ '"' [] _ rfl
        have hopen : '"' ∉ quoted := by
          intro hmem
          obtain ⟨val, rest, rfl, hval⟩ := List.eq_append_cons_of_mem hmem
          exact h key val rest hkey hval rfl
        rw [hquoted, Option.bind_some, findChar_eq_none hopen]
        rfl
    · rw [labelLoop, if_neg hs, findChar_eq_none heq]

/-- Each round reads a label, or the loop ends. -/
theorem label_or_end (s : List Char) :
    (∃ key val rest, '=' ∉ key ∧ '"' ∉ val ∧ s = key ++ '=' :: '"' :: (val ++ '"' :: rest)) ∨
      ∀ room, labelLoop room s = some [] := by
  by_cases h : ∃ key val rest, '=' ∉ key ∧ '"' ∉ val ∧ s = key ++ '=' :: '"' :: (val ++ '"' :: rest)
  · exact .inl h
  · exact .inr fun room => labelLoop_end fun key val rest hkey hval hs =>
      h ⟨key, val, rest, hkey, hval, hs⟩

theorem labelLoop_isSome (room : ℕ) (s : List Char) : (labelLoop room s).isSome := by
  induction room generalizing s with
  | zero => rfl
  | succ room ih =>
    rcases label_or_end s with ⟨key, val, rest, hkey, hval, rfl⟩ | hend
    · rw [labelLoop_label hkey hval, Option.isSome_map]
      exact ih _
    · rw [hend]
      rfl

theorem parseLabels_braces (hs : '{' ∉ s) (hs' : '}' ∉ s) (hinner : '}' ∉ inner) :
    parseLabels (s ++ '{' :: (inner ++ '}' :: rest)) = labelLoop MAX_LABELS inner := by
  have hstop : findChar '}' (s ++ '{' :: (inner ++ '}' :: rest)) =
      some (len Char.utf8Size s + 1 + len Char.utf8Size inner) := by
    have h : '}' ∉ s ++ '{' :: inner := by simp [hs', hinner]
    have hfind := @findChar_append '}' (s ++ '{' :: inner) rest h
    have hone : Char.utf8Size '{' = 1 := rfl
    rw [len_append, len_cons, hone, List.append_assoc, List.cons_append, ← Nat.add_assoc] at hfind
    exact hfind
  rw [parseLabels, findChar_append hs, hstop]
  simp only [sliceBetween_succ (c := '{') rfl, Option.bind_some]

/-- The slice has its start after its end. -/
theorem parseLabels_crossed (hs : '{' ∉ s) (hs' : '}' ∉ s) (hinner : '{' ∉ inner) :
    parseLabels (s ++ '}' :: (inner ++ '{' :: rest)) = none := by
  have hstart : findChar '{' (s ++ '}' :: (inner ++ '{' :: rest)) =
      some (len Char.utf8Size s + 1 + len Char.utf8Size inner) := by
    have h : '{' ∉ s ++ '}' :: inner := by simp [hs, hinner]
    have hfind := @findChar_append '{' (s ++ '}' :: inner) rest h
    have hone : Char.utf8Size '}' = 1 := rfl
    rw [len_append, len_cons, hone, List.append_assoc, List.cons_append, ← Nat.add_assoc] at hfind
    exact hfind
  have hcut : sliceBetween (len Char.utf8Size s + 1 + len Char.utf8Size inner + 1)
      (len Char.utf8Size s) (s ++ '}' :: (inner ++ '{' :: rest)) = none := slice_of_lt (by omega)
  rw [parseLabels, hstart, findChar_append hs']
  simp only [hcut, Option.bind_none]

theorem parseLabels_no_open (h : '{' ∉ metricPart) : parseLabels metricPart = some [] := by
  rw [parseLabels, findChar_eq_none h]

theorem parseLabels_no_close (h : '}' ∉ metricPart) : parseLabels metricPart = some [] := by
  rw [parseLabels, findChar_eq_none h]
  split
  · rfl
  · rfl

/-- The slice of the labels is possible unless the braces are the wrong way round. -/
theorem parseLabels_eq_none_iff : parseLabels metricPart = none ↔
    ∃ before between after, '{' ∉ before ∧ '}' ∉ before ∧ '{' ∉ between ∧
      metricPart = before ++ '}' :: (between ++ '{' :: after) := by
  constructor
  · intro hnone
    by_cases hopen : '{' ∈ metricPart
    · by_cases hclose : '}' ∈ metricPart
      · obtain ⟨before, rest, rfl, hbefore⟩ := List.eq_append_cons_of_mem hclose
        by_cases hfirst : '{' ∈ before
        · obtain ⟨s, inner, rfl, hs⟩ := List.eq_append_cons_of_mem hfirst
          have hparts : '}' ∉ s ∧ '}' ∉ inner := by simpa using hbefore
          rw [List.append_assoc, List.cons_append, parseLabels_braces hs hparts.1 hparts.2] at hnone
          have hsome := labelLoop_isSome MAX_LABELS inner
          rw [hnone] at hsome
          cases hsome
        · have hrest : '{' ∈ rest := by simpa [hfirst] using hopen
          obtain ⟨between, after, rfl, hbetween⟩ := List.eq_append_cons_of_mem hrest
          exact ⟨before, between, after, hfirst, hbefore, hbetween, rfl⟩
      · rw [parseLabels_no_close hclose] at hnone
        cases hnone
    · rw [parseLabels_no_open hopen] at hnone
      cases hnone
  · rintro ⟨before, between, after, hopen, hclose, hbetween, rfl⟩
    exact parseLabels_crossed hopen hclose hbetween

end Labels

/-! ## A line -/

section Lines
variable {F : Type} {parseF64 : List Char → Option F} {isFinite : F → Bool}
  {line metricPart rest text s : List Char} {value : F}

/-- Where the value of a line starts: at the first blank after the first closing brace, if there is
one. -/
structure SplitsAt (line metricPart rest : List Char) : Prop where
  eq : line = metricPart ++ ' ' :: rest
  noBrace : '}' ∉ line → ' ' ∉ metricPart
  brace : '}' ∈ line → ∃ before after, metricPart = before ++ '}' :: after ∧ '}' ∉ before ∧ ' ' ∉ after

theorem SplitsAt.unique {metricPart' rest' : List Char} (h : SplitsAt line metricPart rest)
    (h' : SplitsAt line metricPart' rest') : metricPart = metricPart' ∧ rest = rest' := by
  by_cases hclose : '}' ∈ line
  · obtain ⟨before, after, rfl, hbefore, hafter⟩ := h.brace hclose
    obtain ⟨before', after', rfl, hbefore', hafter'⟩ := h'.brace hclose
    have heq := h.eq.symm.trans h'.eq
    rw [List.append_assoc, List.append_assoc, List.cons_append, List.cons_append] at heq
    obtain ⟨rfl, hrest⟩ := seam_inj hbefore hbefore' heq
    obtain ⟨rfl, rfl⟩ := seam_inj hafter hafter' hrest
    exact ⟨rfl, rfl⟩
  · exact seam_inj (h.noBrace hclose) (h'.noBrace hclose) (h.eq.symm.trans h'.eq)

theorem parseLine_split (h : SplitsAt line metricPart rest) :
    parseLine parseF64 line = some ((valueOf parseF64 rest).map fun value => (metricPart, value)) := by
  have hto : sliceTo (len Char.utf8Size metricPart) line = some metricPart := by
    rw [h.eq]
    exact sliceTo_append
  have hfrom : sliceFrom (len Char.utf8Size metricPart + 1) line = some rest := by
    rw [h.eq]
    exact sliceFrom_succ rfl
  by_cases hclose : '}' ∈ line
  · obtain ⟨before, after, rfl, hbefore, hafter⟩ := h.brace hclose
    have hline : line = before ++ ('}' :: after) ++ ' ' :: rest := h.eq
    have hend : findChar '}' line = some (len Char.utf8Size before) := by
      rw [hline, List.append_assoc, List.cons_append]
      exact findChar_append hbefore
    have hcut : sliceFrom (len Char.utf8Size before) line = some ('}' :: after ++ ' ' :: rest) := by
      rw [hline, List.append_assoc]
      exact sliceFrom_append
    have hblank : ' ' ∉ '}' :: after := by simp [hafter]
    simp only [parseLine, hend, hcut, Option.map_some, findChar_append hblank, Option.bind_eq_bind,
      Option.bind_some, ← len_append, hto, hfrom]
    rfl
  · have hend : findChar '}' line = none := findChar_eq_none hclose
    have hblank : findChar ' ' line = some (len Char.utf8Size metricPart) := by
      rw [h.eq]
      exact findChar_append (h.noBrace hclose)
    simp only [parseLine, hend, hblank, Option.bind_eq_bind, Option.bind_some, hto, hfrom]
    rfl

theorem parseLine_of_not_splitsAt (h : ∀ metricPart rest, ¬ SplitsAt line metricPart rest) :
    parseLine parseF64 line = some none := by
  by_cases hclose : '}' ∈ line
  · obtain ⟨before, after, rfl, hbefore⟩ := List.eq_append_cons_of_mem hclose
    have hblank : ' ' ∉ '}' :: after := by
      intro hmem
      have hafter : ' ' ∈ after := by simpa using hmem
      obtain ⟨between, rest, rfl, hbetween⟩ := List.eq_append_cons_of_mem hafter
      refine h (before ++ '}' :: between) rest ⟨?_, fun hno => absurd hclose hno, fun _ => ?_⟩
      · rw [List.append_assoc, List.cons_append]
      · exact ⟨before, between, rfl, hbefore, hbetween⟩
    simp only [parseLine, findChar_append hbefore, sliceFrom_append, Option.map_some,
      findChar_eq_none hblank, Option.map_none, Option.bind_eq_bind, Option.bind_some]
    rfl
  · have hblank : ' ' ∉ line := by
      intro hmem
      obtain ⟨metricPart, rest, rfl, hbefore⟩ := List.eq_append_cons_of_mem hmem
      exact h metricPart rest ⟨rfl, fun _ => hbefore, fun hmem' => absurd hmem' hclose⟩
    simp only [parseLine, findChar_eq_none hclose, findChar_eq_none hblank, Option.bind_eq_bind,
      Option.bind_some]
    rfl

/-- The name ends before the first opening brace. -/
theorem nameOf_open (h : '{' ∉ s) : nameOf (s ++ '{' :: rest) = some s := by
  simp only [nameOf, findChar_append h, sliceTo_append]

theorem nameOf_no_open (h : '{' ∉ metricPart) : nameOf metricPart = some metricPart := by
  simp only [nameOf, findChar_eq_none h]

theorem nameOf_isSome (metricPart : List Char) : (nameOf metricPart).isSome := by
  by_cases h : '{' ∈ metricPart
  · obtain ⟨s, rest, rfl, hs⟩ := List.eq_append_cons_of_mem h
    rw [nameOf_open hs]
    rfl
  · rw [nameOf_no_open h]
    rfl

/-- A line that is skipped unread. -/
def Skipped (line : List Char) : Prop := line = [] ∨ line.head? = some '#'

instance (line : List Char) : Decidable (Skipped line) := inferInstanceAs (Decidable (_ ∨ _))

theorem scrapeLine_skipped (h : Skipped (trim text)) : scrapeLine parseF64 isFinite text = some none :=
  if_pos h

/-- A line without a value, or whose value is not finite, or whose metric is not forwarded. -/
theorem scrapeLine_dropped (h : ∀ metricPart rest value name, SplitsAt (trim text) metricPart rest →
    valueOf parseF64 rest = some value → isFinite value = true → nameOf metricPart = some name →
      isAllowed name = false) : scrapeLine parseF64 isFinite text = some none := by
  unfold scrapeLine
  dsimp only
  split
  · rfl
  by_cases hsplit : ∃ metricPart rest, SplitsAt (trim text) metricPart rest
  · obtain ⟨metricPart, rest, hsplit⟩ := hsplit
    rw [parseLine_split hsplit]
    cases hvalue : valueOf parseF64 rest with
    | none => rfl
    | some value =>
      cases hfinite : isFinite value with
      | false => simp [hfinite]
      | true =>
        obtain ⟨name, hname⟩ := Option.isSome_iff_exists.mp (nameOf_isSome metricPart)
        simp [hfinite, hname, h metricPart rest value name hsplit hvalue hfinite hname]
  · rw [parseLine_of_not_splitsAt fun metricPart rest hs => hsplit ⟨metricPart, rest, hs⟩]
    rfl

/-- What the line of a forwarded metric with a finite value gives. -/
theorem scrapeLine_read {name : List Char} (hskip : ¬ Skipped (trim text))
    (h : SplitsAt (trim text) metricPart rest) (hvalue : valueOf parseF64 rest = some value)
    (hfinite : isFinite value = true) (hname : nameOf metricPart = some name)
    (hallowed : isAllowed name = true) : scrapeLine parseF64 isFinite text =
      (parseLabels metricPart).map fun labels =>
        if isCpuModeAllowed name labels then some { name, value, labels } else none := by
  have hskip' : ¬ (trim text = [] ∨ (trim text).head? = some '#') := hskip
  unfold scrapeLine
  dsimp only
  rw [if_neg hskip', parseLine_split h, hvalue]
  simp only [Option.map_some, Option.bind_eq_bind, Option.bind_some, hfinite, hname, hallowed,
    Bool.not_true, Bool.false_eq_true, if_false]
  cases parseLabels metricPart with
  | none => rfl
  | some labels => cases hmode : isCpuModeAllowed name labels <;> simp [hmode]

end Lines

/-! ## A text -/

section Texts
variable {F : Type} (parseF64 : List Char → Option F) (isFinite : F → Bool) (text : List Char)

/-- The first closing brace of a line stands before the first opening one, both stand before the blank
that ends the metric, and the metric is forwarded with a finite value. -/
def BracesCrossed (line : List Char) : Prop :=
  ∃ before between after rest value, line.head? ≠ some '#' ∧
    line = before ++ '}' :: (between ++ '{' :: (after ++ ' ' :: rest)) ∧
    ('}' ∉ before ∧ '{' ∉ before ∧ '{' ∉ between ∧ ' ' ∉ between ∧ ' ' ∉ after) ∧
    valueOf parseF64 rest = some value ∧ isFinite value = true ∧
      isAllowed (before ++ '}' :: between) = true

variable {parseF64 isFinite text}

theorem scrapeLine_crossed (h : BracesCrossed parseF64 isFinite (trim text)) :
    scrapeLine parseF64 isFinite text = none := by
  obtain ⟨before, between, after, rest, value, hhash, hline, hmarks, hvalue, hfinite, hallowed⟩ := h
  obtain ⟨hclose, hopen, hopen', hblank, hblank'⟩ := hmarks
  have hskip : ¬ Skipped (trim text) := by
    rintro (hnil | hhead)
    · rw [hnil] at hline
      simp at hline
    · exact hhash hhead
  have hsplit : SplitsAt (trim text) (before ++ '}' :: (between ++ '{' :: after)) rest := by
    refine ⟨?_, fun hno => ?_, fun _ => ⟨before, between ++ '{' :: after, rfl, hclose, ?_⟩⟩
    · rw [hline]
      simp
    · rw [hline] at hno
      simp at hno
    · simp [hblank, hblank']
  have hname : nameOf (before ++ '}' :: (between ++ '{' :: after)) = some (before ++ '}' :: between) := by
    have h : '{' ∉ before ++ '}' :: between := by simp [hopen, hopen']
    have hcut := @nameOf_open after _ h
    rwa [List.append_assoc, List.cons_append] at hcut
  rw [scrapeLine_read hskip hsplit hvalue hfinite hname hallowed, parseLabels_crossed hopen hclose hopen']
  rfl

theorem scrapeLine_eq_none_iff :
    scrapeLine parseF64 isFinite text = none ↔ BracesCrossed parseF64 isFinite (trim text) := by
  refine ⟨fun hnone => ?_, scrapeLine_crossed⟩
  have hskip : ¬ Skipped (trim text) := by
    intro hskip
    rw [scrapeLine_skipped hskip] at hnone
    cases hnone
  by_cases hread : ∃ metricPart rest value name, SplitsAt (trim text) metricPart rest ∧
      valueOf parseF64 rest = some value ∧ isFinite value = true ∧ nameOf metricPart = some name ∧
        isAllowed name = true
  · obtain ⟨metricPart, rest, value, name, hsplit, hvalue, hfinite, hname, hallowed⟩ := hread
    rw [scrapeLine_read hskip hsplit hvalue hfinite hname hallowed, Option.map_eq_none_iff,
      parseLabels_eq_none_iff] at hnone
    obtain ⟨before, between, after, hopen, hclose, hopen', rfl⟩ := hnone
    have hmem : '}' ∈ trim text := by
      rw [hsplit.eq]
      simp
    obtain ⟨before', after', heq, hclose', hblank⟩ := hsplit.brace hmem
    obtain ⟨rfl, rfl⟩ := seam_inj hclose hclose' heq
    have hparts : ' ' ∉ between ∧ ' ' ∉ after := by simpa using hblank
    have hfront : '{' ∉ before ++ '}' :: between := by simp [hopen, hopen']
    have hcut := @nameOf_open after _ hfront
    rw [List.append_assoc, List.cons_append, hname] at hcut
    refine ⟨before, between, after, rest, value, fun hhash => hskip (.inr hhash), ?_,
      ⟨hclose, hopen, hopen', hparts⟩, hvalue, hfinite, Option.some.inj hcut ▸ hallowed⟩
    rw [hsplit.eq]
    simp
  · rw [scrapeLine_dropped] at hnone
    · cases hnone
    · intro metricPart rest value name hsplit hvalue hfinite hname
      by_contra hallowed
      exact hread ⟨metricPart, rest, value, name, hsplit, hvalue, hfinite, hname, by simpa using hallowed⟩

theorem foldlM_lines_isSome {α : Type} (f : List Char → Option (Option α)) (xs : List (List Char))
    (gauges : List α) :
    (xs.foldlM (fun gauges line => (f line).map fun gauge => gauges ++ gauge.toList) gauges).isSome ↔
      ∀ line ∈ xs, f line ≠ none := by
  induction xs generalizing gauges with
  | nil => simp
  | cons line xs ih =>
    cases hline : f line with
    | none => simp [hline]
    | some gauge => simp [hline, ih]

/-- A text is parsed without a panic exactly if no line of it has its braces the wrong way round. -/
theorem parse_total_iff : (parseNodeExporter parseF64 isFinite text).isSome ↔
    ∀ line ∈ lines text, ¬ BracesCrossed parseF64 isFinite (trim line) := by
  rw [parseNodeExporter, foldlM_lines_isSome]
  exact forall₂_congr fun line _ => not_congr scrapeLine_eq_none_iff

def crossedText : List Char := "node_drm_\x7d\x7b 1".toList

/-- A number of digits, as a natural. -/
def digitsValue (word : List Char) : Option ℕ :=
  if word ≠ [] ∧ word.all Char.isDigit then
    some (word.foldl (fun n c => 10 * n + (c.toNat - '0'.toNat)) 0)
  else none

/-- A line of a forwarded metric makes the slice of the labels start after its end. -/
theorem crossedText_panics : ¬ ∀ text : List Char,
    (parseNodeExporter digitsValue (fun _ => true) text).isSome := by
  intro h
  have hpanic := h crossedText
  revert hpanic
  decide

end Texts

end Veronex.Agent.NodeExporter
