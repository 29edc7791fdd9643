import Mathlib
import Veronex.Agent.NodeExporter
import Veronex.Foundation.Positions

/-! # Prometheus text for the node exporter parser

A text is written line by line: samples, comments and blank lines. A sample has a name, labels whose
values are escaped, a value and a timestamp; blanks may stand around it and between its parts, none
inside the braces.

`parse_exposition_iff`: for which texts `parse_node_exporter` returns the forwarded samples as they were written.
-/
namespace Veronex.Agent.NodeExporter
set_option autoImplicit false
open Slices

/-! ## Characters -/

def isLabelChar (c : Char) : Bool := c.isAlphanum || c == '_'

def isNameChar (c : Char) : Bool := isLabelChar c || c == ':'

def isFloatChar (c : Char) : Bool := c.isAlphanum || c == '+' || c == '-' || c == '.'

def isBlank (c : Char) : Bool := c == ' ' || c == '\t'

theorem isWhitespace_of_isAlphanum {c : Char} (h : c.isAlphanum = true) : isWhitespace c = false := by
  have hrange : c.toNat ≤ 122 ∧ 48 ≤ c.toNat := by
    simp only [Char.isAlphanum, Char.isAlpha, Char.isUpper, Char.isLower, Char.isDigit,
      Bool.or_eq_true, Bool.and_eq_true, decide_eq_true_eq, ge_iff_le, UInt32.le_iff_toNat_le] at h
    have hval : c.val.toNat = c.toNat := rfl
    have hends : 'A'.val.toNat = 65 ∧ 'Z'.val.toNat = 90 ∧ 'a'.val.toNat = 97 ∧ 'z'.val.toNat = 122 ∧
        '0'.val.toNat = 48 ∧ '9'.val.toNat = 57 := by decide
    rw [hval] at h
    omega
  simp only [isWhitespace]
  simp
  omega

theorem isWhitespace_of_isNameChar {c : Char} (h : isNameChar c = true) : isWhitespace c = false := by
  simp only [isNameChar, isLabelChar, Bool.or_eq_true, beq_iff_eq] at h
  rcases h with (h | rfl) | rfl
  · exact isWhitespace_of_isAlphanum h
  · decide
  · decide

theorem isWhitespace_of_isFloatChar {c : Char} (h : isFloatChar c = true) : isWhitespace c = false := by
  simp only [isFloatChar, Bool.or_eq_true, beq_iff_eq] at h
  rcases h with ((h | rfl) | rfl) | rfl
  · exact isWhitespace_of_isAlphanum h
  · decide
  · decide
  · decide

theorem isWhitespace_of_isBlank {c : Char} (h : isBlank c = true) : isWhitespace c = true := by
  simp only [isBlank, Bool.or_eq_true, beq_iff_eq] at h
  rcases h with rfl | rfl
  · decide
  · decide

/-! ## Label values -/

def escapeChar (c : Char) : List Char :=
  if c = '\\' then ['\\', '\\'] else if c = '"' then ['\\', '"']
  else if c = '\n' then ['\\', 'n'] else [c]

def escape (val : List Char) : List Char := val.flatMap escapeChar

/-- The comma after a label: one may stand after the last label too. -/
def commaAfter (trailing : Bool) (rest : List Label) : List Char :=
  if rest = [] ∧ trailing = false then [] else [',']

/-- What stands between the braces. -/
def labelsText (trailing : Bool) : List Label → List Char
  | [] => []
  | (key, val) :: rest =>
    key ++ '=' :: '"' :: (escape val ++ '"' :: (commaAfter trailing rest ++ labelsText trailing rest))

section Values
variable {val : List Char} {c d : Char}

theorem escapeChar_plain (h : c ≠ '\\') (h' : c ≠ '"') (h'' : c ≠ '\n') : escapeChar c = [c] := by
  simp [escapeChar, h, h', h'']

/-- A character is escaped as itself, or as a backslash with a character after it. -/
theorem escapeChar_cases (c : Char) :
    (escapeChar c = [c] ∧ c ≠ '\\' ∧ c ≠ '"' ∧ c ≠ '\n') ∨
      ((c = '\\' ∨ c = '"' ∨ c = '\n') ∧ ∃ d, escapeChar c = ['\\', d] ∧ (d = '\\' ∨ d = '"' ∨ d = 'n')) := by
  by_cases h : c = '\\'
  · exact .inr ⟨.inl h, '\\', by simp [escapeChar, h], .inl rfl⟩
  · by_cases h' : c = '"'
    · exact .inr ⟨.inr (.inl h'), '"', by simp [escapeChar, h'], .inr (.inl rfl)⟩
    · by_cases h'' : c = '\n'
      · exact .inr ⟨.inr (.inr h''), 'n', by simp [escapeChar, h''], .inr (.inr rfl)⟩
      · exact .inl ⟨escapeChar_plain h h' h'', h, h', h''⟩

@[simp] theorem escape_nil : escape [] = [] := rfl

theorem escape_cons : escape (c :: val) = escapeChar c ++ escape val := rfl

theorem newline_not_mem_escape (val : List Char) : '\n' ∉ escape val := by
  intro hmem
  obtain ⟨c, -, hc⟩ := List.mem_flatMap.mp hmem
  rcases escapeChar_cases c with ⟨heq, -, -, hne⟩ | ⟨-, d, heq, rfl | rfl | rfl⟩
  · rw [heq, List.mem_singleton] at hc
    exact hne hc.symm
  all_goals
    rw [heq] at hc
    revert hc
    decide

theorem quote_mem_escape : '"' ∈ escape val ↔ '"' ∈ val := by
  constructor
  · intro hmem
    obtain ⟨c, hval, hc⟩ := List.mem_flatMap.mp hmem
    rcases escapeChar_cases c with ⟨heq, -⟩ | ⟨rfl | rfl | rfl, -⟩
    · rw [heq, List.mem_singleton] at hc
      exact hc ▸ hval
    · exact absurd hc (by decide)
    · exact hval
    · exact absurd hc (by decide)
  · exact fun hmem => List.mem_flatMap.mpr ⟨'"', hmem, by decide⟩

/-- No escape adds or removes a brace. -/
theorem brace_mem_escape : '\x7d' ∈ escape val ↔ '\x7d' ∈ val := by
  constructor
  · intro hmem
    obtain ⟨c, hval, hc⟩ := List.mem_flatMap.mp hmem
    rcases escapeChar_cases c with ⟨heq, -⟩ | ⟨rfl | rfl | rfl, -⟩
    · rw [heq, List.mem_singleton] at hc
      exact hc ▸ hval
    all_goals exact absurd hc (by decide)
  · exact fun hmem => List.mem_flatMap.mpr ⟨'\x7d', hmem, by decide⟩

theorem length_le_escape (val : List Char) : val.length ≤ (escape val).length := by
  induction val with
  | nil => simp
  | cons c val ih =>
    rw [escape_cons, List.length_append, List.length_cons]
    rcases escapeChar_cases c with ⟨heq, -⟩ | ⟨-, d, heq, -⟩
    · rw [heq, List.length_singleton]
      omega
    · rw [heq, List.length_cons, List.length_singleton]
      omega

/-- A value is written as it is exactly if nothing in it is escaped. -/
theorem escape_eq_self_iff : escape val = val ↔ '\\' ∉ val ∧ '"' ∉ val ∧ '\n' ∉ val := by
  induction val with
  | nil => simp
  | cons c val ih =>
    have hlen := length_le_escape val
    rcases escapeChar_cases c with ⟨heq, h, h', h''⟩ | ⟨hc, d, heq, -⟩
    · rw [escape_cons, heq, List.singleton_append, List.cons.injEq, ih]
      simp [h.symm, h'.symm, h''.symm]
    · refine iff_of_false (fun hself => ?_) ?_
      · have hlength := congrArg List.length hself
        rw [escape_cons, heq, List.length_append, List.length_cons, List.length_singleton,
          List.length_cons] at hlength
        omega
      · rcases hc with rfl | rfl | rfl <;> simp

end Values

/-! ## Labels that are read -/

section Reading
variable {trailing : Bool} {labels read rest : List Label} {key val s before after : List Char}
  {room : ℕ}

def IsLabelName (key : List Char) : Prop := key ≠ [] ∧ ∀ c ∈ key, isLabelChar c = true

theorem skipComma_commaAfter (trailing : Bool) (rest : List Label) :
    skipComma (commaAfter trailing rest ++ labelsText trailing rest) = labelsText trailing rest := by
  unfold commaAfter
  split
  · next h =>
    rw [h.1]
    rfl
  · rfl

/-- Without quotes in the values every label is read, its value as it is written. -/
theorem labelLoop_labelsText (hroom : labels.length ≤ room)
    (hnames : ∀ l ∈ labels, IsLabelName l.1) (hquotes : ∀ l ∈ labels, '"' ∉ l.2) :
    labelLoop room (labelsText trailing labels) = some (labels.map fun l => (l.1, escape l.2)) := by
  induction labels generalizing room with
  | nil =>
    cases room with
    | zero => rfl
    | succ room => rfl
  | cons l labels ih =>
    obtain ⟨key, val⟩ := l
    obtain ⟨hkey, hnames⟩ := List.forall_mem_cons.mp hnames
    obtain ⟨hval, hquotes⟩ := List.forall_mem_cons.mp hquotes
    have heq : '=' ∉ key := not_mem_of_all hkey.2 (by decide)
    obtain ⟨room, rfl⟩ : ∃ n, room = n + 1 := ⟨room - 1, by rw [List.length_cons] at hroom; omega⟩
    have hrest : labels.length ≤ room := by simpa using hroom
    rw [labelsText, labelLoop_label heq (quote_mem_escape.not.mpr hval), skipComma_commaAfter,
      ih hrest hnames hquotes]
    rfl

/-- What ends before a label: nothing, a quote or a comma. -/
def EndsLabel (before : List Char) : Prop := ∀ c ∈ before.getLast?, isLabelChar c = false

theorem EndsLabel.suffix (h : EndsLabel (s ++ before)) : EndsLabel before := by
  intro c hc
  refine h c ?_
  rw [List.getLast?_append, Option.mem_def.mp hc]
  rfl

theorem EndsLabel.append (h : EndsLabel s) (h' : EndsLabel before) : EndsLabel (s ++ before) := by
  intro c hc
  rw [List.getLast?_append] at hc
  cases hlast : before.getLast? with
  | none =>
    rw [hlast, Option.none_or] at hc
    exact h c hc
  | some d =>
    rw [hlast, Option.some_or] at hc
    obtain rfl := Option.some.inj hc
    exact h' d hlast

theorem endsLabel_concat {c : Char} (hc : isLabelChar c = false) : EndsLabel (s ++ [c]) := by
  intro d hd
  rw [List.getLast?_append, List.getLast?_singleton, Option.some_or] at hd
  exact Option.some.inj hd ▸ hc

/-- A label that is read stands in the text after the end of another. -/
theorem occurs_of_read (h : labelLoop room s = some read) (hmem : (key, val) ∈ read) :
    '"' ∉ val ∧ ∃ before after, EndsLabel before ∧
      s = before ++ (key ++ '=' :: '"' :: (val ++ '"' :: after)) := by
  induction room generalizing s read with
  | zero =>
    obtain rfl : [] = read := Option.some.inj h
    cases hmem
  | succ room ih =>
    rcases label_or_end s with ⟨key', val', rest, hkey, hval, rfl⟩ | hend
    · rw [labelLoop_label hkey hval] at h
      obtain ⟨read', hread, rfl⟩ := Option.map_eq_some_iff.mp h
      rcases List.mem_cons.mp hmem with heq | hmem
      · obtain ⟨rfl, rfl⟩ := Prod.mk.inj heq
        refine ⟨hval, [], rest, ?_, rfl⟩
        intro c hc
        cases hc
      · obtain ⟨hquote, before, after, hends, hs⟩ := ih hread hmem
        -- the label before ends with its quote, or with the comma after it
        obtain ⟨front, hfront, hsplit⟩ : ∃ front, EndsLabel front ∧
            key' ++ '=' :: '"' :: (val' ++ '"' :: rest) = front ++ skipComma rest := by
          unfold skipComma
          split
          · next hcomma =>
            obtain ⟨tail, rfl⟩ := List.head?_eq_some_iff.mp hcomma
            refine ⟨(key' ++ '=' :: '"' :: (val' ++ ['"'])) ++ [','], endsLabel_concat (by decide), ?_⟩
            simp
          · refine ⟨(key' ++ '=' :: '"' :: val') ++ ['"'], endsLabel_concat (by decide), ?_⟩
            simp
        refine ⟨hquote, front ++ before, after, hfront.append hends, ?_⟩
        rw [hsplit, hs, List.append_assoc]
    · rw [hend] at h
      obtain rfl := Option.some.inj h
      cases hmem

/-- No label begins in the middle of a value: what follows the quote that ends the value is a comma. -/
theorem value_ends {tail : List Char} (hkey : '"' ∉ key) (hkey' : '\\' ∉ key)
    (hval : ∀ c ∈ val.head?, c ≠ ',') (hne : val ≠ []) (htail : ∀ c ∈ tail.head?, c = ',') :
    escape before ++ '"' :: tail ≠ key ++ '=' :: '"' :: (val ++ '"' :: after) := by
  induction before generalizing key with
  | nil =>
    intro h
    cases key with
    | nil => exact absurd (List.cons.inj h).1 (by decide)
    | cons c key =>
      obtain rfl : '"' = c := (List.cons.inj h).1
      exact hkey List.mem_cons_self
  | cons c before ih =>
    intro h
    rw [escape_cons] at h
    rcases escapeChar_cases c with ⟨heq, -⟩ | ⟨-, d, heq, -⟩
    · rw [heq] at h
      cases key with
      | nil =>
        -- an equals sign is the last character of the value
        obtain ⟨-, h⟩ := List.cons.inj h
        cases before with
        | nil =>
          obtain ⟨-, h⟩ := List.cons.inj h
          obtain ⟨v, val, rfl⟩ := List.exists_cons_of_ne_nil hne
          rw [h] at htail
          exact hval v rfl (htail v rfl)
        | cons e before =>
          rw [escape_cons] at h
          rcases escapeChar_cases e with ⟨heq', -, hquote, -⟩ | ⟨-, d, heq', -⟩
          · rw [heq'] at h
            exact hquote (List.cons.inj h).1
          · rw [heq'] at h
            exact absurd (List.cons.inj h).1 (by decide)
      | cons e key =>
        obtain ⟨-, h⟩ := List.cons.inj h
        exact ih (fun hmem => hkey (List.mem_cons_of_mem _ hmem))
          (fun hmem => hkey' (List.mem_cons_of_mem _ hmem)) h
    · rw [heq] at h
      cases key with
      | nil => exact absurd (List.cons.inj h).1 (by decide)
      | cons e key =>
        obtain rfl : '\\' = e := (List.cons.inj h).1
        exact hkey' List.mem_cons_self

/-- A label that stands after a part of a value stands after its end. -/
theorem after_value {tail front : List Char} (hkey : IsLabelName key)
    (hval : ∀ c ∈ val.head?, c ≠ ',') (hne : val ≠ []) (htail : ∀ c ∈ tail.head?, c = ',')
    (h : escape before ++ '"' :: tail = front ++ (key ++ '=' :: '"' :: (val ++ '"' :: after))) :
    ∃ front', front = escape before ++ '"' :: front' ∧
      tail = front' ++ (key ++ '=' :: '"' :: (val ++ '"' :: after)) := by
  have hquote : '"' ∉ key := not_mem_of_all hkey.2 (by decide)
  have hslash : '\\' ∉ key := not_mem_of_all hkey.2 (by decide)
  induction before generalizing front with
  | nil =>
    cases front with
    | nil =>
      have hends : escape [] ++ '"' :: tail ≠ key ++ '=' :: '"' :: (val ++ '"' :: after) :=
        value_ends hquote hslash hval hne htail
      exact absurd h hends
    | cons c front =>
      obtain ⟨rfl, htail'⟩ := List.cons.inj h
      exact ⟨front, rfl, htail'⟩
  | cons c before ih =>
    cases front with
    | nil => exact absurd h (value_ends hquote hslash hval hne htail)
    | cons e front =>
      rw [escape_cons] at h ⊢
      rcases escapeChar_cases c with ⟨heq, -⟩ | ⟨-, d, heq, -⟩
      · rw [heq] at h ⊢
        obtain ⟨rfl, hrest⟩ := List.cons.inj h
        obtain ⟨front', rfl, htail'⟩ := ih hrest
        exact ⟨front', rfl, htail'⟩
      · rw [heq] at h ⊢
        simp only [List.cons_append, List.nil_append] at h ⊢
        obtain ⟨rfl, hrest⟩ := List.cons.inj h
        cases front with
        | nil =>
          -- the label would begin with the escaped character
          cases hkeys : key with
          | nil => exact absurd hkeys hkey.1
          | cons k key' =>
            rw [hkeys] at hrest hquote hslash
            obtain ⟨rfl, hrest'⟩ := List.cons.inj hrest
            exact absurd hrest' (value_ends (fun hm => hquote (List.mem_cons_of_mem _ hm))
              (fun hm => hslash (List.mem_cons_of_mem _ hm)) hval hne htail)
        | cons f front =>
          obtain ⟨rfl, hrest'⟩ := List.cons.inj hrest
          obtain ⟨front', rfl, htail'⟩ := ih hrest'
          exact ⟨front', rfl, htail'⟩

/-- A value without escapes that stands where another begins is that one. -/
theorem value_eq {tail : List Char} (hquote : '"' ∉ val) (hslash : '\\' ∉ val)
    (h : escape before ++ '"' :: tail = val ++ '"' :: after) : before = val := by
  induction before generalizing val with
  | nil =>
    cases val with
    | nil => rfl
    | cons c val =>
      obtain rfl : '"' = c := (List.cons.inj h).1
      exact absurd List.mem_cons_self hquote
  | cons c before ih =>
    rw [escape_cons] at h
    rcases escapeChar_cases c with ⟨heq, -, hne, -⟩ | ⟨-, d, heq, -⟩
    · rw [heq] at h
      cases val with
      | nil => exact absurd (List.cons.inj h).1 hne
      | cons e val =>
        obtain ⟨rfl, hrest⟩ := List.cons.inj h
        rw [ih (fun hm => hquote (List.mem_cons_of_mem _ hm))
          (fun hm => hslash (List.mem_cons_of_mem _ hm)) hrest]
    · rw [heq] at h
      cases val with
      | nil => exact absurd (List.cons.inj h).1 (by decide)
      | cons e val =>
        obtain rfl : '\\' = e := (List.cons.inj h).1
        exact absurd List.mem_cons_self hslash

theorem commaAfter_head :
    ∀ c ∈ (commaAfter trailing labels ++ labelsText trailing labels).head?, c = ',' := by
  unfold commaAfter
  split
  · next hlast =>
    intro c hc
    rw [hlast.1] at hc
    cases hc
  · intro c hc
    exact (Option.some.inj hc).symm

/-- A label that stands after the first one stands after the comma. -/
theorem after_comma {front rest : List Char} (hkey : IsLabelName key)
    (h : commaAfter trailing labels ++ labelsText trailing labels = front ++ (key ++ rest)) :
    ∃ front', front = ',' :: front' ∧ labelsText trailing labels = front' ++ (key ++ rest) := by
  obtain ⟨k, key', rfl⟩ := List.exists_cons_of_ne_nil hkey.1
  unfold commaAfter at h
  split at h
  · next hlast =>
    rw [hlast.1] at h
    simp [labelsText] at h
  · cases front with
    | nil =>
      obtain rfl : ',' = k := (List.cons.inj h).1
      exact absurd (hkey.2 ',' List.mem_cons_self) (by decide)
    | cons c front =>
      obtain ⟨rfl, hrest⟩ := List.cons.inj h
      exact ⟨front, rfl, hrest⟩

/-- The first quotation mark of a text that begins with a label follows its name. -/
theorem name_eq {name rest rest' : List Char} (hname : IsLabelName name) (hkey : IsLabelName key)
    (hends : EndsLabel before) (hquote : '"' ∉ before)
    (h : (name ++ ['=']) ++ '"' :: rest = before ++ ((key ++ ['=']) ++ '"' :: rest')) :
    before = [] ∧ name = key ∧ rest = rest' := by
  have hfront : '"' ∉ name ++ ['='] := by
    simp [not_mem_of_all hname.2 (show isLabelChar '"' = false by decide)]
  have hwhole : '"' ∉ before ++ (key ++ ['=']) := by
    simp [hquote, not_mem_of_all hkey.2 (show isLabelChar '"' = false by decide)]
  rw [← List.append_assoc] at h
  obtain ⟨hnames, hrest⟩ := seam_inj hfront hwhole h
  rw [← List.append_assoc] at hnames
  obtain rfl := List.append_cancel_right hnames
  have hbefore : before = [] := by
    by_contra hbefore
    have hlast := hends _ (List.getLast?_eq_some_getLast hbefore)
    rw [hname.2 _ (List.mem_append_left _ (List.getLast_mem hbefore))] at hlast
    cases hlast
  exact ⟨hbefore, by rw [hbefore, List.nil_append], hrest⟩

/-- What looks like a label with a plain value is one. -/
theorem label_of_occurrence (hnames : ∀ l ∈ labels, IsLabelName l.1) (hkey : IsLabelName key)
    (hquote : '"' ∉ val) (hslash : '\\' ∉ val) (hval : ∀ c ∈ val.head?, c ≠ ',') (hne : val ≠ [])
    (hends : EndsLabel before) (h : labelsText trailing labels =
      before ++ (key ++ '=' :: '"' :: (val ++ '"' :: after))) : (key, val) ∈ labels := by
  induction labels generalizing before with
  | nil => simp [labelsText] at h
  | cons l labels ih =>
    obtain ⟨name, value⟩ := l
    obtain ⟨hname, hnames⟩ := List.forall_mem_cons.mp hnames
    have htext : (name ++ ['=']) ++ '"' ::
        (escape value ++ '"' :: (commaAfter trailing labels ++ labelsText trailing labels)) =
          before ++ ((key ++ ['=']) ++ '"' :: (val ++ '"' :: after)) := by
      simpa [labelsText] using h
    by_cases hmem : '"' ∈ before
    · -- the text goes on in the value or after it
      obtain ⟨start, inside, rfl, hstart⟩ := List.eq_append_cons_of_mem hmem
      have hfront : '"' ∉ name ++ ['='] := by
        simp [not_mem_of_all hname.2 (show isLabelChar '"' = false by decide)]
      have htext' : (name ++ ['=']) ++ '"' ::
          (escape value ++ '"' :: (commaAfter trailing labels ++ labelsText trailing labels)) =
            start ++ '"' :: (inside ++ (key ++ '=' :: '"' :: (val ++ '"' :: after))) := by
        simpa using htext
      obtain ⟨rfl, hrest⟩ := seam_inj hfront hstart htext'
      obtain ⟨front, rfl, hnext⟩ := after_value hkey hval hne commaAfter_head hrest
      obtain ⟨front', rfl, hnext'⟩ := after_comma hkey hnext
      have hends' : EndsLabel front' := by
        refine EndsLabel.suffix (s := name ++ ['='] ++ '"' :: (escape value ++ ['"', ','])) ?_
        simpa using hends
      exact List.mem_cons_of_mem _ (ih hnames hends' hnext')
    · obtain ⟨-, rfl, hrest⟩ := name_eq hname hkey hends hmem htext
      rw [value_eq hquote hslash hrest]
      exact List.mem_cons_self

theorem find?_label (hnodup : (labels.map Prod.fst).Nodup) (hmem : (key, val) ∈ labels) :
    (labels.find? fun l => l.1 = key) = some (key, val) := by
  induction labels with
  | nil => cases hmem
  | cons l labels ih =>
    rw [List.map_cons, List.nodup_cons] at hnodup
    rcases List.mem_cons.mp hmem with rfl | hrest
    · simp
    · have hne : l.1 ≠ key := by
        rintro rfl
        exact hnodup.1 (List.mem_map.mpr ⟨_, hrest, rfl⟩)
      rw [List.find?_cons_of_neg (by simpa using hne), ih hnodup.2 hrest]

/-- A forwarded CPU mode that is read from a part of the labels is the mode of the sample. -/
theorem isCpuModeAllowed_of_read {name : List Char} (hnames : ∀ l ∈ labels, IsLabelName l.1)
    (hnodup : (labels.map Prod.fst).Nodup) (hs : s <+: labelsText trailing labels)
    (hread : labelLoop room s = some read) (h : isCpuModeAllowed name read = true) :
    isCpuModeAllowed name labels = true := by
  unfold isCpuModeAllowed at h ⊢
  split
  · rfl
  · next hname =>
    rw [if_neg hname] at h
    obtain ⟨⟨key, val⟩, hfind, hmode⟩ := (Option.any_eq_true _ _).mp h
    obtain rfl : key = "mode".toList := by simpa using List.find?_some hfind
    obtain ⟨-, before, after, hends, hs'⟩ := occurs_of_read hread (List.mem_of_find?_eq_some hfind)
    obtain ⟨tail, htail⟩ := hs
    obtain ⟨mode, hallowed, hval⟩ := List.any_eq_true.mp hmode
    obtain rfl : mode.toList = val := of_decide_eq_true hval
    have hplain : ∀ mode ∈ CPU_MODE_ALLOWLIST, '"' ∉ mode.toList ∧ '\\' ∉ mode.toList ∧
        mode.toList.head? ≠ some ',' ∧ mode.toList ≠ [] := by
      decide
    obtain ⟨hquote, hslash, hhead, hne⟩ := hplain mode hallowed
    have hcomma : ∀ c ∈ mode.toList.head?, c ≠ ',' := fun c hc heq => hhead (heq ▸ hc)
    have htext : labelsText trailing labels = before ++ ("mode".toList ++ '=' :: '"' ::
        (mode.toList ++ '"' :: (after ++ tail))) := by
      rw [← htail, hs']
      simp
    have hmem := label_of_occurrence hnames ⟨by decide, List.all_eq_true.mp (by decide)⟩ hquote hslash hcomma hne hends htext
    rw [find?_label hnodup hmem, Option.any_some]
    exact hmode

end Reading

/-! ## Samples -/

/-- A sample as it is written. The blanks stand before the name, after the one blank that ends the
metric, before the timestamp and at the end. -/
structure Sample {F : Type} (parseF64 : List Char → Option F) where
  lead : List Char
  name : List Char
  /-- `none` where there are no braces. -/
  labelSet : Option (List Label)
  trailingComma : Bool
  gap : List Char
  valueText : List Char
  value : F
  timestamp : Option (List Char × List Char)
  trail : List Char
  lead_blank : ∀ c ∈ lead, isBlank c = true
  name_chars : name ≠ [] ∧ ∀ c ∈ name, isNameChar c = true
  label_names : ∀ l ∈ labelSet.getD [], IsLabelName l.1
  labels_nodup : ((labelSet.getD []).map Prod.fst).Nodup
  labels_le : (labelSet.getD []).length ≤ MAX_LABELS
  gap_blank : ∀ c ∈ gap, isBlank c = true
  value_chars : valueText ≠ [] ∧ ∀ c ∈ valueText, isFloatChar c = true
  value_parsed : parseF64 valueText = some value
  stamp_chars : ∀ t ∈ timestamp, (t.1 ≠ [] ∧ ∀ c ∈ t.1, isBlank c = true) ∧
    t.2 ≠ [] ∧ ∀ c ∈ t.2, isFloatChar c = true
  trail_blank : ∀ c ∈ trail, isBlank c = true

namespace Sample
variable {F : Type} {parseF64 : List Char → Option F} (isFinite : F → Bool) (s : Sample parseF64)

def labels : List Label := s.labelSet.getD []

def bracesText : List Char :=
  match s.labelSet with
  | none => []
  | some labels => '{' :: (labelsText s.trailingComma labels ++ ['}'])

def stampText : List Char := (s.timestamp.map fun t => t.1 ++ t.2).getD []

/-- What stands after the blank that ends the metric. -/
def tail : List Char := s.gap ++ (s.valueText ++ s.stampText)

def line : List Char := s.name ++ (s.bracesText ++ ' ' :: s.tail)

def text : List Char := s.lead ++ (s.line ++ s.trail)

/-- What is forwarded of the sample. -/
def gauge : Option (Gauge F) :=
  if isFinite s.value && isAllowed s.name && isCpuModeAllowed s.name s.labels then
    some { name := s.name, value := s.value, labels := s.labels }
  else none

/-- The value is not finite, but the first word after the first closing brace and a blank is a finite
number, as it can be where the value of a label has a brace. -/
def Misread : Prop :=
  isAllowed s.name = true ∧ isFinite s.value = false ∧
    ∃ labels, s.labelSet = some labels ∧ ∃ front between rest value read,
      labelsText s.trailingComma labels ++ '}' :: ' ' :: s.tail =
        front ++ '}' :: (between ++ ' ' :: rest) ∧
      '}' ∉ front ∧ ' ' ∉ between ∧ valueOf parseF64 rest = some value ∧ isFinite value = true ∧
      labelLoop MAX_LABELS front = some read ∧ isCpuModeAllowed s.name read = true

/-- The values of the labels of a forwarded sample have no character that ends them early or is
escaped, and no other sample is forwarded for a number in a label. -/
structure Readable : Prop where
  plain : (s.gauge isFinite).isSome →
    ∀ l ∈ s.labels, '}' ∉ l.2 ∧ '\\' ∉ l.2 ∧ '"' ∉ l.2 ∧ '\n' ∉ l.2
  notMisread : ¬ s.Misread isFinite

variable {isFinite s}

theorem not_mem_blank {c : Char} {blanks : List Char} (h : ∀ d ∈ blanks, isBlank d = true)
    (hc : isBlank c = false) : c ∉ blanks := not_mem_of_all h hc

theorem stampText_head : ∀ d ∈ s.stampText.head?, isWhitespace d = true := by
  intro d hd
  unfold stampText at hd
  cases hstamp : s.timestamp with
  | none =>
    rw [hstamp] at hd
    cases hd
  | some t =>
    obtain ⟨⟨hne, hblank⟩, -⟩ := s.stamp_chars t hstamp
    obtain ⟨c, blanks, hblanks⟩ := List.exists_cons_of_ne_nil hne
    rw [hstamp, Option.map_some, Option.getD_some, hblanks] at hd
    obtain rfl : c = d := Option.some.inj hd
    exact isWhitespace_of_isBlank (hblank c (by rw [hblanks]; exact List.mem_cons_self))

theorem valueOf_tail (s : Sample parseF64) : valueOf parseF64 s.tail = some s.value := by
  have hword := head_splitWhitespace (fun d hd => isWhitespace_of_isBlank (s.gap_blank d hd))
    s.value_chars.1 (fun d hd => isWhitespace_of_isFloatChar (s.value_chars.2 d hd)) s.stampText_head
  rw [valueOf, tail, hword, Option.bind_some, s.value_parsed]

/-- A character that is no part of a value, a timestamp or a blank. -/
theorem not_mem_tail {c : Char} (hblank : isBlank c = false) (hfloat : isFloatChar c = false) :
    c ∉ s.tail := by
  have hgap := not_mem_of_all s.gap_blank hblank
  have hvalue := not_mem_of_all s.value_chars.2 hfloat
  have hstamp : c ∉ s.stampText := by
    unfold stampText
    cases hstamp : s.timestamp with
    | none => simp
    | some t =>
      obtain ⟨⟨-, hblanks⟩, -, hchars⟩ := s.stamp_chars t hstamp
      simp [not_mem_of_all hblanks hblank, not_mem_of_all hchars hfloat]
  simp [tail, hgap, hvalue, hstamp]

/-- A line ends with its value or its timestamp. -/
theorem line_ends (s : Sample parseF64) : ∃ front word, s.line = front ++ word ∧ word ≠ [] ∧
    ∀ c ∈ word, isFloatChar c = true := by
  cases hstamp : s.timestamp with
  | none =>
    refine ⟨s.name ++ (s.bracesText ++ ' ' :: s.gap), s.valueText, ?_, s.value_chars⟩
    simp [line, tail, stampText, hstamp]
  | some t =>
    refine ⟨s.name ++ (s.bracesText ++ ' ' :: (s.gap ++ (s.valueText ++ t.1))), t.2, ?_,
      (s.stamp_chars t hstamp).2⟩
    simp [line, tail, stampText, hstamp]

theorem line_last : ∀ d ∈ s.line.getLast?, isWhitespace d = false := by
  intro d hd
  obtain ⟨front, word, hline, hne, hchars⟩ := s.line_ends
  rw [hline, List.getLast?_append_of_ne_nil _ hne] at hd
  exact isWhitespace_of_isFloatChar (hchars d (List.mem_of_getLast? hd))

theorem line_head : ∃ c rest, s.line = c :: rest ∧ isNameChar c = true := by
  obtain ⟨c, name, hname⟩ := List.exists_cons_of_ne_nil s.name_chars.1
  refine ⟨c, name ++ (s.bracesText ++ ' ' :: s.tail), by rw [line, hname]; rfl, ?_⟩
  exact s.name_chars.2 c (by rw [hname]; exact List.mem_cons_self)

theorem trim_text (s : Sample parseF64) : trim s.text = s.line := by
  refine trim_blanks (fun d hd => isWhitespace_of_isBlank (s.lead_blank d hd))
    (fun d hd => isWhitespace_of_isBlank (s.trail_blank d hd)) (fun d hd => ?_) s.line_last
  obtain ⟨c, rest, hline, hc⟩ := s.line_head
  rw [hline] at hd
  exact Option.some.inj hd ▸ isWhitespace_of_isNameChar hc

theorem not_skipped (s : Sample parseF64) : ¬ Skipped (trim s.text) := by
  obtain ⟨c, rest, hline, hc⟩ := s.line_head
  rw [trim_text, hline]
  rintro (hnil | hhash)
  · cases hnil
  · obtain rfl : c = '#' := Option.some.inj hhash
    exact absurd hc (by decide)

/-! ## What is read of a sample -/

variable {front between rest : List Char} {labels read : List Label} {value : F}

/-- Where the line of a sample with braces is cut. -/
theorem splitsAt_braces (hset : s.labelSet = some labels)
    (heq : labelsText s.trailingComma labels ++ '}' :: ' ' :: s.tail =
      front ++ '}' :: (between ++ ' ' :: rest)) (hfront : '}' ∉ front) (hbetween : ' ' ∉ between) :
    SplitsAt s.line (s.name ++ '{' :: (front ++ '}' :: between)) rest := by
  have hline : s.line = s.name ++ '{' :: (front ++ '}' :: (between ++ ' ' :: rest)) := by
    rw [line, bracesText, hset, ← heq]
    simp
  have hname : '}' ∉ s.name ++ '{' :: front := by
    simp [not_mem_of_all s.name_chars.2 (show isNameChar '}' = false by decide), hfront]
  refine ⟨?_, fun hno => ?_, fun _ => ⟨s.name ++ '{' :: front, between, ?_, hname, hbetween⟩⟩
  · rw [hline]
    simp
  · rw [hline] at hno
    simp at hno
  · simp

theorem name_no_open (s : Sample parseF64) : '{' ∉ s.name :=
  not_mem_of_all s.name_chars.2 (by decide)

theorem name_no_close (s : Sample parseF64) : '}' ∉ s.name :=
  not_mem_of_all s.name_chars.2 (by decide)

/-- Every sample with braces is cut somewhere. -/
theorem exists_cut (s : Sample parseF64) (labels : List Label) : ∃ front between rest,
    labelsText s.trailingComma labels ++ '}' :: ' ' :: s.tail =
      front ++ '}' :: (between ++ ' ' :: rest) ∧ '}' ∉ front ∧ ' ' ∉ between := by
  by_cases hclose : '}' ∈ labelsText s.trailingComma labels
  · obtain ⟨front, back, heq, hfront⟩ := List.eq_append_cons_of_mem hclose
    have hblank : ' ' ∈ back ++ '}' :: ' ' :: s.tail := by simp
    obtain ⟨between, rest, hcut, hbetween⟩ := List.eq_append_cons_of_mem hblank
    refine ⟨front, between, rest, ?_, hfront, hbetween⟩
    rw [heq, ← hcut, List.append_assoc, List.cons_append]
  · exact ⟨_, [], s.tail, rfl, hclose, List.not_mem_nil⟩

theorem scrape_braces (hset : s.labelSet = some labels)
    (heq : labelsText s.trailingComma labels ++ '}' :: ' ' :: s.tail =
      front ++ '}' :: (between ++ ' ' :: rest)) (hfront : '}' ∉ front) (hbetween : ' ' ∉ between)
    (hvalue : valueOf parseF64 rest = some value) (hfinite : isFinite value = true)
    (hallowed : isAllowed s.name = true) (hread : labelLoop MAX_LABELS front = some read) :
    scrapeLine parseF64 isFinite s.text = some (if isCpuModeAllowed s.name read then
      some { name := s.name, value, labels := read } else none) := by
  have hsplit := splitsAt_braces hset heq hfront hbetween
  rw [← trim_text] at hsplit
  rw [scrapeLine_read s.not_skipped hsplit hvalue hfinite (nameOf_open s.name_no_open) hallowed,
    parseLabels_braces s.name_no_open s.name_no_close hfront, hread]
  rfl

theorem scrape_no_value (hset : s.labelSet = some labels)
    (heq : labelsText s.trailingComma labels ++ '}' :: ' ' :: s.tail =
      front ++ '}' :: (between ++ ' ' :: rest)) (hfront : '}' ∉ front) (hbetween : ' ' ∉ between)
    (hvalue : ∀ value, valueOf parseF64 rest = some value → isFinite value = false) :
    scrapeLine parseF64 isFinite s.text = some none := by
  refine scrapeLine_dropped fun metricPart rest' value name hsplit hvalue' hfinite _ => ?_
  have hsplit' := splitsAt_braces hset heq hfront hbetween
  rw [← trim_text] at hsplit'
  obtain ⟨-, rfl⟩ := hsplit.unique hsplit'
  rw [hvalue value hvalue'] at hfinite
  cases hfinite

theorem splitsAt_plain (hset : s.labelSet = none) : SplitsAt s.line s.name s.tail := by
  have hline : s.line = s.name ++ ' ' :: s.tail := by simp [line, bracesText, hset]
  have hclose : '}' ∉ s.line := by
    rw [hline]
    have htail : '}' ∉ s.tail := not_mem_tail (by decide) (by decide)
    simp [s.name_no_close, htail]
  exact ⟨hline, fun _ => not_mem_of_all s.name_chars.2 (by decide), fun hmem => absurd hmem hclose⟩

theorem scrape_plain (hset : s.labelSet = none) :
    scrapeLine parseF64 isFinite s.text = some (s.gauge isFinite) := by
  have hsplit := splitsAt_plain hset
  rw [← trim_text] at hsplit
  have hname : nameOf s.name = some s.name := nameOf_no_open s.name_no_open
  have hlabels : s.labels = [] := by rw [labels, hset]; rfl
  by_cases hread : isFinite s.value = true ∧ isAllowed s.name = true
  · rw [scrapeLine_read s.not_skipped hsplit s.valueOf_tail hread.1 hname hread.2,
      parseLabels_no_open s.name_no_open]
    simp [gauge, hread, hlabels]
  · have hgauge : s.gauge isFinite = none := by
      rw [gauge, if_neg]
      simp only [Bool.and_eq_true]
      exact fun h => hread h.1
    rw [hgauge]
    refine scrapeLine_dropped fun metricPart rest value name hsplit' hvalue hfinite hname' => ?_
    obtain ⟨rfl, rfl⟩ := hsplit.unique hsplit'
    obtain rfl := Option.some.inj (hname.symm.trans hname')
    obtain rfl := Option.some.inj (s.valueOf_tail.symm.trans hvalue)
    simpa [hfinite] using hread

theorem scrape_not_allowed (hallowed : isAllowed s.name = false) :
    scrapeLine parseF64 isFinite s.text = some none := by
  cases hset : s.labelSet with
  | none =>
    rw [scrape_plain hset, gauge, hallowed]
    simp
  | some labels =>
    obtain ⟨front, between, rest, heq, hfront, hbetween⟩ := s.exists_cut labels
    have hsplit := splitsAt_braces hset heq hfront hbetween
    rw [← trim_text] at hsplit
    refine scrapeLine_dropped fun metricPart rest' value name hsplit' _ _ hname => ?_
    obtain ⟨rfl, rfl⟩ := hsplit.unique hsplit'
    obtain rfl := Option.some.inj ((nameOf_open s.name_no_open).symm.trans hname)
    exact hallowed

theorem newline_not_mem_labelsText {trailing : Bool} (hnames : ∀ l ∈ labels, IsLabelName l.1) :
    '\n' ∉ labelsText trailing labels := by
  induction labels with
  | nil => exact List.not_mem_nil
  | cons l labels ih =>
    obtain ⟨hname, hnames⟩ := List.forall_mem_cons.mp hnames
    have hkey : '\n' ∉ l.1 := not_mem_of_all hname.2 (by decide)
    have hcomma : '\n' ∉ commaAfter trailing labels := by
      unfold commaAfter
      split
      · exact List.not_mem_nil
      · decide
    simp [labelsText, hkey, newline_not_mem_escape, hcomma, ih hnames]

/-- A sample is read without a panic, and no value of a label that is read has a quote, a closing brace
or a line break. -/
theorem scrape_cases (isFinite : F → Bool) (s : Sample parseF64) :
    ∃ gauge, scrapeLine parseF64 isFinite s.text = some gauge ∧
      ∀ g, gauge = some g → ∀ l ∈ g.labels, '"' ∉ l.2 ∧ '}' ∉ l.2 ∧ '\n' ∉ l.2 := by
  cases hset : s.labelSet with
  | none =>
    refine ⟨_, scrape_plain hset, fun g hg l hl => ?_⟩
    have hlabels : s.labels = [] := by rw [Sample.labels, hset]; rfl
    unfold Sample.gauge at hg
    split at hg
    · obtain rfl := Option.some.inj hg
      rw [hlabels] at hl
      cases hl
    · cases hg
  | some labels =>
    obtain ⟨front, between, rest, heq, hfront, hbetween⟩ := s.exists_cut labels
    cases hallowed : isAllowed s.name with
    | false => exact ⟨none, scrape_not_allowed hallowed, by simp⟩
    | true =>
      by_cases hvalue : ∃ value, valueOf parseF64 rest = some value ∧ isFinite value = true
      · obtain ⟨value, hvalue, hfinite⟩ := hvalue
        obtain ⟨read, hread⟩ := Option.isSome_iff_exists.mp (labelLoop_isSome MAX_LABELS front)
        refine ⟨_, scrape_braces hset heq hfront hbetween hvalue hfinite hallowed hread,
          fun g hg l hl => ?_⟩
        split at hg
        · obtain rfl := Option.some.inj hg
          obtain ⟨hquote, before, after, -, hocc⟩ := occurs_of_read hread hl
          have hnewline : '\n' ∉ front := by
            intro hmem
            have hall : '\n' ∈ labelsText s.trailingComma labels ++ '}' :: ' ' :: s.tail := by
              rw [heq]
              exact List.mem_append_left _ hmem
            have hnames : ∀ l ∈ labels, IsLabelName l.1 := by simpa [hset] using s.label_names
            have htail : '\n' ∉ s.tail := not_mem_tail (by decide) (by decide)
            simp [newline_not_mem_labelsText hnames, htail] at hall
          rw [hocc] at hfront hnewline
          exact ⟨hquote, fun hm => hfront (by simp [hm]), fun hm => hnewline (by simp [hm])⟩
        · cases hg
      · refine ⟨none, scrape_no_value hset heq hfront hbetween fun value hv => ?_, by simp⟩
        by_contra hfinite
        exact hvalue ⟨value, hv, by simpa using hfinite⟩

theorem brace_not_mem_labelsText {trailing : Bool} (hnames : ∀ l ∈ labels, IsLabelName l.1)
    (hvalues : ∀ l ∈ labels, '}' ∉ l.2) : '}' ∉ labelsText trailing labels := by
  induction labels with
  | nil => exact List.not_mem_nil
  | cons l labels ih =>
    obtain ⟨hname, hnames⟩ := List.forall_mem_cons.mp hnames
    obtain ⟨hvalue, hvalues⟩ := List.forall_mem_cons.mp hvalues
    have hkey : '}' ∉ l.1 := not_mem_of_all hname.2 (by decide)
    have hcomma : '}' ∉ commaAfter trailing labels := by
      unfold commaAfter
      split
      · exact List.not_mem_nil
      · decide
    simp [labelsText, hkey, brace_mem_escape, hvalue, hcomma, ih hnames hvalues]

/-- Escaping changes no forwarded CPU mode. -/
theorem isCpuModeAllowed_escape {name : List Char} (h : isCpuModeAllowed name labels = true) :
    isCpuModeAllowed name (labels.map fun l => (l.1, escape l.2)) = true := by
  unfold isCpuModeAllowed at h ⊢
  split
  · rfl
  · next hname =>
    rw [if_neg hname] at h
    obtain ⟨l, hfind, hmode⟩ := (Option.any_eq_true _ _).mp h
    obtain ⟨mode, hallowed, hval⟩ := List.any_eq_true.mp hmode
    have hplain : ∀ mode ∈ CPU_MODE_ALLOWLIST, escape mode.toList = mode.toList := by decide
    have hsame : escape l.2 = l.2 := by
      rw [← of_decide_eq_true hval]
      exact hplain mode hallowed
    rw [List.find?_map]
    have hfind' : labels.find? ((fun l : Label => decide (l.1 = "mode".toList)) ∘
        fun l : Label => (l.1, escape l.2)) = some l := hfind
    rw [hfind', Option.map_some, Option.any_some, hsame]
    exact hmode

theorem gauge_of_isSome (h : (s.gauge isFinite).isSome) :
    s.gauge isFinite = some ⟨s.name, s.value, s.labels⟩ := by
  unfold gauge at h ⊢
  split
  · rfl
  · next hneg =>
    rw [if_neg hneg] at h
    cases h

/-- A forwarded sample without quotes and closing braces in its values is read, with the values as they
are written. -/
theorem scrape_forwarded (hgauge : (s.gauge isFinite).isSome)
    (hvalues : ∀ l ∈ s.labels, '"' ∉ l.2 ∧ '}' ∉ l.2) :
    scrapeLine parseF64 isFinite s.text =
      some (some ⟨s.name, s.value, s.labels.map fun l => (l.1, escape l.2)⟩) := by
  have hcond : (isFinite s.value = true ∧ isAllowed s.name = true) ∧
      isCpuModeAllowed s.name s.labels = true := by
    unfold gauge at hgauge
    split at hgauge
    · next h => simpa using h
    · cases hgauge
  obtain ⟨⟨hfinite, hallowed⟩, hmode⟩ := hcond
  cases hset : s.labelSet with
  | none =>
    have hlabels : s.labels = [] := by rw [labels, hset]; rfl
    rw [scrape_plain hset, gauge, hfinite, hallowed, hmode, hlabels]
    rfl
  | some labels =>
    have hlabels : s.labels = labels := by rw [Sample.labels, hset]; rfl
    have hnames : ∀ l ∈ labels, IsLabelName l.1 := by simpa [hset] using s.label_names
    have hroom : labels.length ≤ MAX_LABELS := by simpa [hset] using s.labels_le
    rw [hlabels] at hvalues hmode ⊢
    have hread := @labelLoop_labelsText s.trailingComma labels MAX_LABELS hroom hnames
      fun l hl => (hvalues l hl).1
    have hclose := @brace_not_mem_labelsText labels s.trailingComma hnames fun l hl => (hvalues l hl).2
    have heq : labelsText s.trailingComma labels ++ '}' :: ' ' :: s.tail =
        labelsText s.trailingComma labels ++ '}' :: ([] ++ ' ' :: s.tail) := rfl
    rw [scrape_braces hset heq hclose List.not_mem_nil s.valueOf_tail hfinite hallowed hread, if_pos (isCpuModeAllowed_escape hmode)]

/-- A sample that is not forwarded and not misread is dropped. -/
theorem scrape_not_forwarded (hgauge : s.gauge isFinite = none) (hread : ¬ s.Misread isFinite) :
    scrapeLine parseF64 isFinite s.text = some none := by
  cases hset : s.labelSet with
  | none => rw [scrape_plain hset, hgauge]
  | some labels =>
    cases hallowed : isAllowed s.name with
    | false => exact scrape_not_allowed hallowed
    | true =>
      obtain ⟨front, between, rest, heq, hfront, hbetween⟩ := s.exists_cut labels
      by_cases hvalue : ∃ value, valueOf parseF64 rest = some value ∧ isFinite value = true
      · obtain ⟨value, hvalue, hfinite⟩ := hvalue
        obtain ⟨read, hlabels⟩ := Option.isSome_iff_exists.mp (labelLoop_isSome MAX_LABELS front)
        rw [scrape_braces hset heq hfront hbetween hvalue hfinite hallowed hlabels]
        cases hmode : isCpuModeAllowed s.name read with
        | false => rfl
        | true =>
          -- the mode that is read is the mode of the sample, so its value is not finite
          have hnames : ∀ l ∈ labels, IsLabelName l.1 := by simpa [hset] using s.label_names
          have hnodup : (labels.map Prod.fst).Nodup := by simpa [hset] using s.labels_nodup
          have hpart : front <+: labelsText s.trailingComma labels := by
            by_cases hclose : '}' ∈ labelsText s.trailingComma labels
            · obtain ⟨start, back, hlabels', hstart⟩ := List.eq_append_cons_of_mem hclose
              rw [hlabels', List.append_assoc, List.cons_append] at heq
              rw [hlabels', (seam_inj hstart hfront heq).1]
              exact ⟨_, rfl⟩
            · exact ⟨[], by rw [(seam_inj hclose hfront heq).1, List.append_nil]⟩
          have hmode' := isCpuModeAllowed_of_read hnames hnodup hpart hlabels hmode
          have hlabels' : s.labels = labels := by rw [Sample.labels, hset]; rfl
          cases hsame : isFinite s.value with
          | true =>
            rw [gauge, hsame, hallowed, hlabels', hmode'] at hgauge
            cases hgauge
          | false =>
            exact absurd ⟨hallowed, hsame, labels, hset, front, between, rest, value, read, heq, hfront,
              hbetween, hvalue, hfinite, hlabels, hmode⟩ hread
      · refine scrape_no_value hset heq hfront hbetween fun value hv => ?_
        by_contra hfinite
        exact hvalue ⟨value, hv, by simpa using hfinite⟩

theorem scrape_misread (h : s.Misread isFinite) :
    s.gauge isFinite = none ∧ ∃ g, scrapeLine parseF64 isFinite s.text = some (some g) := by
  obtain ⟨hallowed, hvalue, labels, hset, front, between, rest, value, read, heq, hfront, hbetween,
    hrest, hfinite, hread, hmode⟩ := h
  refine ⟨by rw [gauge, hvalue]; rfl, { name := s.name, value, labels := read }, ?_⟩
  rw [scrape_braces hset heq hfront hbetween hrest hfinite hallowed hread, if_pos hmode]

end Sample

/-! ## Texts -/

section Expositions
variable {F : Type} {parseF64 : List Char → Option F}

/-- A line of a text. -/
inductive Entry (parseF64 : List Char → Option F) where
  | sample (s : Sample parseF64)
  | comment (lead text : List Char) (hlead : ∀ c ∈ lead, isBlank c = true) (htext : '\n' ∉ text)
  | blank (blanks : List Char) (hblanks : ∀ c ∈ blanks, isBlank c = true)

variable (isFinite : F → Bool) {e : Entry parseF64} {es : List (Entry parseF64)} {s : Sample parseF64}

namespace Entry

def text : Entry parseF64 → List Char
  | sample s => s.text
  | comment lead text _ _ => lead ++ '#' :: text
  | blank blanks _ => blanks

/-- What is forwarded of a line. -/
def gauge : Entry parseF64 → Option (Gauge F)
  | sample s => s.gauge isFinite
  | comment _ _ _ _ => none
  | blank _ _ => none

end Entry

/-- Each line is ended by a line feed. -/
def exposition (es : List (Entry parseF64)) : List Char := es.flatMap fun e => e.text ++ ['\n']

/-- What the parser reads of a line. -/
def Entry.read (e : Entry parseF64) : Option (Gauge F) :=
  (scrapeLine parseF64 isFinite e.text).getD none

variable {isFinite}

theorem newline_not_mem_text (e : Entry parseF64) : '\n' ∉ e.text := by
  cases e with
  | sample s =>
    have hlead := not_mem_of_all s.lead_blank (show isBlank '\n' = false by decide)
    have htrail := not_mem_of_all s.trail_blank (show isBlank '\n' = false by decide)
    have hname := not_mem_of_all s.name_chars.2 (show isNameChar '\n' = false by decide)
    have htail : '\n' ∉ s.tail := Sample.not_mem_tail (by decide) (by decide)
    have hbraces : '\n' ∉ s.bracesText := by
      unfold Sample.bracesText
      cases hset : s.labelSet with
      | none => exact List.not_mem_nil
      | some labels =>
        have hnames : ∀ l ∈ labels, IsLabelName l.1 := by simpa [hset] using s.label_names
        simp [Sample.newline_not_mem_labelsText hnames]
    simp [Entry.text, Sample.text, Sample.line, hlead, hname, hbraces, htail, htrail]
  | comment lead text hlead htext =>
    simp [Entry.text, not_mem_of_all hlead (show isBlank '\n' = false by decide), htext]
  | blank blanks hblanks => exact not_mem_of_all hblanks (by decide)

theorem lines_exposition (es : List (Entry parseF64)) : lines (exposition es) =
    (es.map Entry.text).map fun line => if line.getLast? = some '\r' then line.dropLast else line := by
  have hended := @lines_ended (es.map Entry.text) fun x hx => by
    obtain ⟨e, -, rfl⟩ := List.mem_map.mp hx
    exact newline_not_mem_text e
  rw [List.flatMap_map] at hended
  exact hended

/-- A carriage return before the line feed makes no difference to a line. -/
theorem scrapeLine_withoutReturn (line : List Char) :
    scrapeLine parseF64 isFinite (if line.getLast? = some '\r' then line.dropLast else line) =
      scrapeLine parseF64 isFinite line := by
  unfold scrapeLine
  rw [trim_withoutReturn]

theorem comment_skipped {lead text : List Char} {htext : '\n' ∉ text}
    (hlead : ∀ c ∈ lead, isBlank c = true) : scrapeLine parseF64 isFinite
      (Entry.comment lead text hlead htext : Entry parseF64).text = some none := by
  refine scrapeLine_skipped ?_
  unfold Entry.text trim
  rw [List.dropWhile_append_of_pos fun d hd => isWhitespace_of_isBlank (hlead d hd),
    List.dropWhile_cons_of_neg (by decide)]
  have hne : List.rdropWhile isWhitespace ('#' :: text) ≠ [] := by
    intro hnil
    have hspace := List.rdropWhile_eq_nil_iff.mp hnil '#' List.mem_cons_self
    exact absurd hspace (by decide)
  obtain ⟨rest, hrest⟩ := List.rdropWhile_prefix isWhitespace ('#' :: text)
  obtain ⟨c, kept, hkept⟩ := List.exists_cons_of_ne_nil hne
  rw [hkept] at hrest ⊢
  exact .inr (congrArg some (List.cons.inj hrest).1)

theorem blank_skipped {blanks : List Char} (hblanks : ∀ c ∈ blanks, isBlank c = true) :
    scrapeLine parseF64 isFinite (Entry.blank blanks hblanks : Entry parseF64).text =
      some none := by
  have htrim := @trim_blanks blanks [] []
    (fun d hd => isWhitespace_of_isBlank (hblanks d hd)) (by simp) (by simp) (by simp)
  have hnil : trim blanks = [] := by simpa using htrim
  exact scrapeLine_skipped (.inl hnil)

theorem scrapeLine_entry (e : Entry parseF64) :
    scrapeLine parseF64 isFinite e.text = some (e.read isFinite) := by
  cases e with
  | sample s =>
    obtain ⟨gauge, hread, -⟩ := s.scrape_cases isFinite
    rw [Entry.read, Entry.text, hread]
    rfl
  | comment lead text hlead htext =>
    rw [Entry.read, comment_skipped hlead]
    rfl
  | blank blanks hblanks =>
    rw [Entry.read, blank_skipped hblanks]
    rfl

/-- No value of a label that is read has a quote, a closing brace or a line break. -/
theorem read_clean {g : Gauge F} (h : e.read isFinite = some g) :
    ∀ l ∈ g.labels, '"' ∉ l.2 ∧ '}' ∉ l.2 ∧ '\n' ∉ l.2 := by
  cases e with
  | sample s =>
    obtain ⟨gauge, hread, hclean⟩ := s.scrape_cases isFinite
    rw [Entry.read, Entry.text, hread] at h
    exact hclean g h
  | comment lead text hlead htext =>
    rw [Entry.read, comment_skipped hlead] at h
    cases h
  | blank blanks hblanks =>
    rw [Entry.read, blank_skipped hblanks] at h
    cases h

theorem foldlM_lines {α β : Type} {f : β → Option (Option α)} {g : β → Option α} {xs : List β}
    (gauges : List α) (h : ∀ x ∈ xs, f x = some (g x)) :
    xs.foldlM (fun gauges x => (f x).map fun gauge => gauges ++ gauge.toList) gauges =
      some (gauges ++ xs.flatMap fun x => (g x).toList) := by
  induction xs generalizing gauges with
  | nil => simp
  | cons x xs ih =>
    obtain ⟨hx, hxs⟩ := List.forall_mem_cons.mp h
    rw [List.foldlM_cons, hx, Option.map_some, Option.bind_eq_bind, Option.bind_some, ih _ hxs,
      List.flatMap_cons, List.append_assoc]

/-- The parser goes line by line. -/
theorem parse_exposition (es : List (Entry parseF64)) :
    parseNodeExporter parseF64 isFinite (exposition es) =
      some (es.flatMap fun e => (e.read isFinite).toList) := by
  rw [parseNodeExporter, lines_exposition, List.map_map, List.foldlM_map]
  refine foldlM_lines [] fun e _ => ?_
  rw [Function.comp_apply, scrapeLine_withoutReturn]
  exact scrapeLine_entry e

theorem read_of_plain (hgauge : (s.gauge isFinite).isSome)
    (hvalues : ∀ l ∈ s.labels, '"' ∉ l.2 ∧ '}' ∉ l.2) : (Entry.sample s).read isFinite =
      some ⟨s.name, s.value, s.labels.map fun l => (l.1, escape l.2)⟩ := by
  rw [Entry.read, Entry.text, Sample.scrape_forwarded hgauge hvalues]
  rfl

theorem map_escape_eq_self_iff {labels : List (List Char × List Char)} :
    (labels.map fun l => (l.1, escape l.2)) = labels ↔
      ∀ l ∈ labels, '\\' ∉ l.2 ∧ '"' ∉ l.2 ∧ '\n' ∉ l.2 := by
  have hescape : (∀ l ∈ labels, '\\' ∉ l.2 ∧ '"' ∉ l.2 ∧ '\n' ∉ l.2) ↔
      ∀ l ∈ labels, escape l.2 = l.2 := forall₂_congr fun l _ => escape_eq_self_iff.symm
  rw [hescape]
  constructor
  · intro h l hl
    have hmap : labels.map (fun l => (l.1, escape l.2)) = labels.map id := by rw [h, List.map_id]
    exact congrArg Prod.snd (List.map_inj_left.mp hmap l hl)
  · intro h
    have hmap : labels.map (fun l => (l.1, escape l.2)) = labels.map id :=
      List.map_congr_left fun l hl => Prod.ext rfl (h l hl)
    rw [hmap, List.map_id]

/-- A forwarded sample with clean values is read as it is exactly if they need no escape. -/
theorem read_of_clean_iff (hgauge : (s.gauge isFinite).isSome)
    (hvalues : ∀ l ∈ s.labels, '"' ∉ l.2 ∧ '}' ∉ l.2) :
    (Entry.sample s).read isFinite = s.gauge isFinite ↔
      ∀ l ∈ s.labels, '\\' ∉ l.2 ∧ '"' ∉ l.2 ∧ '\n' ∉ l.2 := by
  rw [read_of_plain hgauge hvalues, Sample.gauge_of_isSome hgauge, ← map_escape_eq_self_iff]
  simp

/-- What is read of a sample is what is forwarded of it. -/
theorem read_sample_iff :
    (Entry.sample s).read isFinite = s.gauge isFinite ↔ s.Readable isFinite := by
  constructor
  · intro h
    refine ⟨fun hgauge l hl => ?_, fun hmisread => ?_⟩
    · have hread := h.trans (Sample.gauge_of_isSome hgauge)
      have hclean := read_clean hread
      have hvalues : ∀ l ∈ s.labels, '"' ∉ l.2 ∧ '}' ∉ l.2 := fun l hl =>
        ⟨(hclean l hl).1, (hclean l hl).2.1⟩
      exact ⟨(hvalues l hl).2, (read_of_clean_iff hgauge hvalues).mp h l hl⟩
    · obtain ⟨hgauge, g, hread⟩ := Sample.scrape_misread hmisread
      rw [Entry.read, Entry.text, hread, hgauge] at h
      cases h
  · rintro ⟨hplain, hmisread⟩
    cases hgauge : s.gauge isFinite with
    | none =>
      rw [Entry.read, Entry.text, Sample.scrape_not_forwarded hgauge hmisread]
      rfl
    | some g =>
      have hsome : (s.gauge isFinite).isSome := by rw [hgauge]; rfl
      have hvalues := hplain hsome
      rw [← hgauge]
      exact (read_of_clean_iff hsome fun l hl => ⟨(hvalues l hl).2.2.1, (hvalues l hl).1⟩).mpr
        fun l hl => (hvalues l hl).2

/-- Nothing is read of other lines. -/
theorem read_entry_iff (e : Entry parseF64) :
    e.read isFinite = e.gauge isFinite ↔ ∀ s, e = .sample s → s.Readable isFinite := by
  cases e with
  | sample s =>
    rw [Entry.gauge, read_sample_iff]
    simp
  | comment lead text hlead htext =>
    rw [Entry.read, comment_skipped hlead]
    simp [Entry.gauge]
  | blank blanks hblanks =>
    rw [Entry.read, blank_skipped hblanks]
    simp [Entry.gauge]

/-- Where all that is forwarded is among what is read, each forwarded sample is read. -/
theorem gauge_length_le
    (h : ∀ g, e.gauge isFinite = some g → ∀ l ∈ g.labels, '"' ∉ l.2 ∧ '}' ∉ l.2) :
    (e.gauge isFinite).toList.length ≤ (e.read isFinite).toList.length := by
  cases hgauge : e.gauge isFinite with
  | none => exact Nat.zero_le _
  | some g =>
    cases e with
    | sample s =>
      have hsome : (s.gauge isFinite).isSome := Option.isSome_of_eq_some hgauge
      rw [read_of_plain hsome (h _ (Sample.gauge_of_isSome hsome))]
      rfl
    | comment => cases hgauge
    | blank => cases hgauge

/-- A sample with a closing brace in the value of a label. -/
def bracedSample : Sample digitsValue where
  lead := []
  name := "node_drm_card".toList
  labelSet := some [("name".toList, ['a', '}', 'b'])]
  trailingComma := false
  gap := []
  valueText := ['1']
  value := 1
  timestamp := none
  trail := []
  lead_blank := List.all_eq_true.mp (by decide)
  name_chars := ⟨by decide, List.all_eq_true.mp (by decide)⟩
  label_names := by
    intro l hl
    obtain rfl := List.mem_singleton.mp hl
    exact ⟨by decide, List.all_eq_true.mp (by decide)⟩
  labels_nodup := by decide
  labels_le := by decide
  gap_blank := List.all_eq_true.mp (by decide)
  value_chars := ⟨by decide, List.all_eq_true.mp (by decide)⟩
  value_parsed := by decide
  stamp_chars := by
    intro t ht
    cases ht
  trail_blank := List.all_eq_true.mp (by decide)

end Expositions

end Veronex.Agent.NodeExporter
