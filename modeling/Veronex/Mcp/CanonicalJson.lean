import Mathlib.Data.List.Sort
import Mathlib.Data.Nat.Digits.Lemmas
import Mathlib.Data.String.Basic
import Veronex.Foundation.PrefixCode
import Veronex.Mcp.ForcedJson

/-! # Canonical arguments

`canonical_json` of `veronex-mcp/src/result_cache.rs`. Its text is read off the front of any text
that goes on with a comma or a closing bracket, so it determines the value up to the order of keys, as
deep as the function goes.
-/
namespace Veronex.Mcp
set_option autoImplicit false
open Words

/-! ## Strings -/

/-- The short escapes of `serde_json`. -/
def SERDE_SHORT : List (Char × Char) :=
  [('"', '"'), ('\\', '\\'), ('\x08', 'b'), ('\t', 't'), ('\n', 'n'), ('\x0c', 'f'), ('\r', 'r')]

def serdeCode (c : Char) : List Char :=
  ['0', '0', Nat.digitChar (c.toNat / 16), Nat.digitChar (c.toNat % 16)]

def serdeEscape : Char → List Char :=
  escaped '\\' 'u' (fun c => SERDE_SHORT.lookup c) (fun c => 32 ≤ c.toNat) serdeCode

/-- The short escapes of `{:?}`. -/
def DEBUG_SHORT : List (Char × Char) :=
  [('\x00', '0'), ('\t', 't'), ('\r', 'r'), ('\n', 'n'), ('\\', '\\'), ('"', '"')]

def hexDigits (n : ℕ) : List Char :=
  if n = 0 then ['0'] else (Nat.digits 16 n).reverse.map Nat.digitChar

def debugCode (c : Char) : List Char := '{' :: (hexDigits c.toNat ++ ['}'])

/-- `printable`: what the Unicode tables of the standard library have as printable and not as
extending the character before. -/
def debugEscape (printable : Char → Bool) : Char → List Char :=
  escaped '\\' 'u' (fun c => DEBUG_SHORT.lookup c) printable debugCode

def quoted (escape : Char → List Char) (s : String) : List Char :=
  '"' :: (s.toList.flatMap escape ++ ['"'])

/-! ## Values -/

def MAX_CANONICAL_DEPTH : ℕ := 16

def sortByKey (fields : List (String × Json)) : List (String × Json) :=
  fields.insertionSort fun a b => a.1 ≤ b.1

/-- `to_string` of a value that is neither an object nor an array. -/
def scalarText : Json → List Char
  | .null => "null".toList
  | .bool b => if b then "true".toList else "false".toList
  | .num text => text.toList
  | .str s => quoted serdeEscape s
  | .arr _ | .obj _ => []

/-- `canonical_json`, by the depth that is left. -/
def canonicalJson (printable : Char → Bool) : ℕ → Json → List Char
  | 0, _ => "\"...\"".toList
  | left + 1, .obj fields =>
    '{' :: ([','].intercalate ((sortByKey fields).map fun p =>
      quoted (debugEscape printable) p.1 ++ ':' :: canonicalJson printable left p.2) ++ ['}'])
  | left + 1, .arr items =>
    '[' :: ([','].intercalate (items.map (canonicalJson printable left)) ++ [']'])
  | _ + 1, v => scalarText v

/-- Values that are equal to a depth, up to the order of keys. -/
def SameTo : ℕ → Json → Json → Prop
  | 0, _, _ => True
  | n + 1, .obj fields, .obj fields' =>
    ∃ reordered, List.Forall₂ (fun p q => p.1 = q.1 ∧ SameTo n p.2 q.2) fields reordered ∧
      reordered.Perm fields'
  | n + 1, .arr items, .arr items' => List.Forall₂ (SameTo n) items items'
  | _ + 1, v, v' => v = v'

/-- The text of a number: a digit or a sign, then what can stand in one. -/
def numberText (text : List Char) : Bool :=
  text.head?.any (fun c => c.isDigit || c = '-') &&
    text.all fun c => c.isDigit || c = '.' || c = 'e' || c = 'E' || c = '+' || c = '-'

/-- A value of `serde_json`, to a depth: the keys of an object differ. -/
def ValidTo : ℕ → Json → Prop
  | 0, _ => True
  | n + 1, .obj fields => (fields.map Prod.fst).Nodup ∧ ∀ p ∈ fields, ValidTo n p.2
  | n + 1, .arr items => ∀ v ∈ items, ValidTo n v
  | _ + 1, .num text => numberText text.toList = true
  | _ + 1, _ => True

/-! ## Reading strings -/

theorem mem_of_lookup_eq {table : List (Char × Char)} {c e : Char} (h : table.lookup c = some e) :
    (c, e) ∈ table := by
  obtain ⟨before, after, rfl, -⟩ := List.lookup_eq_some_iff.mp h
  exact List.mem_append_right _ (List.mem_cons_self ..)

/-- Escapes of a table in which they differ. -/
theorem lookup_inj {table : List (Char × Char)} (hnodup : (table.map Prod.snd).Nodup) (c d e : Char)
    (hc : table.lookup c = some e) (hd : table.lookup d = some e) : c = d := by
  have heq := List.inj_on_of_nodup_map hnodup (mem_of_lookup_eq hc) (mem_of_lookup_eq hd) rfl
  exact (Prod.mk.inj heq).1

theorem lookup_ne_some {table : List (Char × Char)} {u : Char} (hu : u ∉ table.map Prod.snd)
    (c : Char) : table.lookup c ≠ some u :=
  fun hc => hu (List.mem_map_of_mem (mem_of_lookup_eq hc))

theorem digitChar_inj {a b : ℕ} (ha : a < 16) (hb : b < 16)
    (h : Nat.digitChar a = Nat.digitChar b) : a = b := by
  have hall : ∀ a < 16, ∀ b < 16, Nat.digitChar a = Nat.digitChar b → a = b := by decide
  exact hall a ha b hb h

theorem digitChars_inj {l l' : List ℕ} (hl : ∀ d ∈ l, d < 16) (hl' : ∀ d ∈ l', d < 16)
    (h : l.map Nat.digitChar = l'.map Nat.digitChar) : l = l' := by
  induction l generalizing l' with
  | nil => exact (List.map_eq_nil_iff.mp h.symm).symm
  | cons a l ih =>
    cases l' with
    | nil => cases h
    | cons b l' =>
      obtain ⟨hhead, htail⟩ := List.cons.inj h
      have hab := digitChar_inj (hl a (List.mem_cons_self ..)) (hl' b (List.mem_cons_self ..)) hhead
      have hll' := ih (fun d hd => hl d (List.mem_cons_of_mem _ hd))
        (fun d hd => hl' d (List.mem_cons_of_mem _ hd)) htail
      rw [hab, hll']

theorem serdeEscape_delimited : Delimited Eq serdeEscape := by
  refine delimited_escaped (lookup_inj (by decide)) (lookup_ne_some (by decide)) (by decide) ?_
  intro c d hc hd x y _ _ heq
  have hc32 : c.toNat < 32 := by simpa using hc
  have hd32 : d.toNat < 32 := by simpa using hd
  simp only [serdeCode, List.cons_append, List.nil_append, List.cons.injEq, true_and] at heq
  have hhigh := digitChar_inj (by omega) (by omega) heq.1
  have hlow := digitChar_inj (by omega) (by omega) heq.2.1
  have hcode : c.toNat = d.toNat := by omega
  exact ⟨Char.toNat_inj.mp hcode, heq.2.2⟩

theorem hexDigits_ne {e : Char} (he : ∀ d < 16, Nat.digitChar d ≠ e) (n : ℕ) :
    ∀ c ∈ hexDigits n, ¬ c = e := by
  intro c hc
  rw [hexDigits] at hc
  split at hc
  · rw [List.mem_singleton.mp hc]
    exact he 0 (by decide)
  · obtain ⟨d, hd, rfl⟩ := List.mem_map.mp hc
    exact he d (Nat.digits_lt_base (by decide) (List.mem_reverse.mp hd))

/-- The digits of a number other than zero do not begin with a zero. -/
theorem hexDigits_inj {a b : ℕ} (h : hexDigits a = hexDigits b) : a = b := by
  have hzero : ∀ n, n ≠ 0 → (Nat.digits 16 n).reverse.map Nat.digitChar ≠ ['0'] := by
    intro n hn heq
    obtain ⟨d, hd, hchar⟩ := List.map_eq_singleton_iff.mp heq
    have hdigits : Nat.digits 16 n = [d] := by
      rw [← List.reverse_reverse (Nat.digits 16 n), hd]
      rfl
    have hlt : d < 16 := Nat.digits_lt_base (by decide) (hdigits ▸ List.mem_singleton_self d)
    have hd0 : d = 0 := digitChar_inj hlt (by decide) hchar
    have hlast := Nat.getLast_digit_ne_zero 16 hn
    simp [hdigits, hd0] at hlast
  rw [hexDigits, hexDigits] at h
  split at h
  · next ha =>
    split at h
    · next hb => rw [ha, hb]
    · next hb => exact absurd h.symm (hzero b hb)
  · next ha =>
    split at h
    · exact absurd h (hzero a ha)
    · have hlt : ∀ n, ∀ d ∈ (Nat.digits 16 n).reverse, d < 16 := fun n d hd =>
        Nat.digits_lt_base (by decide) (List.mem_reverse.mp hd)
      have hdigits := digitChars_inj (hlt a) (hlt b) h
      exact Nat.digits_inj_iff.mp (List.reverse_injective hdigits)

theorem debugEscape_delimited (printable : Char → Bool) :
    Delimited Eq (debugEscape printable) := by
  refine delimited_escaped (lookup_inj (by decide)) (lookup_ne_some (by decide)) (by decide) ?_
  intro c d _ _ x y _ _ heq
  simp only [debugCode, List.cons_append, List.append_assoc, List.cons.injEq, true_and] at heq
  obtain ⟨hdigits, hrest⟩ := readable_word (· = '}') (hexDigits_ne (by decide) _)
    (hexDigits_ne (by decide) _) (ends_cons rfl) (ends_cons rfl) heq
  exact ⟨Char.toNat_inj.mp (hexDigits_inj hdigits), by simpa using hrest⟩

/-- A string in quotes. -/
theorem quoted_delimited {escape : Char → List Char} (h : Delimited Eq escape)
    (hq : ∀ c, ∃ d rest, escape c = d :: rest ∧ d ≠ '"') : Delimited Eq (quoted escape) := by
  intro s t _ _ x y _ _ heq
  obtain ⟨hlist, hxy⟩ := h.quote hq trivial trivial (ends_true _) (ends_true _) (List.cons.inj heq).2
  exact ⟨String.toList_inj.mp hlist, hxy⟩

theorem serdeQuoted_delimited : Delimited Eq (quoted serdeEscape) :=
  quoted_delimited serdeEscape_delimited (escaped_head (by decide) (by decide))

theorem debugQuoted_delimited (printable : Char → Bool) :
    Delimited Eq (quoted (debugEscape printable)) :=
  quoted_delimited (debugEscape_delimited printable) (escaped_head (by decide) (by decide))

/-! ## Reading values -/

inductive Kind
  | null
  | yes
  | no
  | num
  | str
  | arr
  | obj

def kind : Json → Kind
  | .null => .null
  | .bool b => if b then .yes else .no
  | .num _ => .num
  | .str _ => .str
  | .arr _ => .arr
  | .obj _ => .obj

/-- What a text is of, by its first character. -/
def kindOf (c : Char) : Option Kind :=
  if c.isDigit || c = '-' then some .num
  else if c = 'n' then some .null else if c = 't' then some .yes else if c = 'f' then some .no
  else if c = '"' then some .str else if c = '[' then some .arr else if c = '{' then some .obj
  else none

/-- What goes on after a value. -/
def Closes (c : Char) : Prop := c = ',' ∨ c = ']' ∨ c = '}'

section Values
variable {printable : Char → Bool} {n : ℕ} {v v' : Json}

theorem canonicalJson_head (hv : ValidTo (n + 1) v) :
    ∃ c rest, canonicalJson printable (n + 1) v = c :: rest ∧ kindOf c = some (kind v) := by
  cases v with
  | null => exact ⟨'n', _, rfl, rfl⟩
  | bool b =>
    cases b with
    | false => exact ⟨'f', _, rfl, rfl⟩
    | true => exact ⟨'t', _, rfl, rfl⟩
  | num text =>
    obtain ⟨hhead, -⟩ := Bool.and_eq_true_iff.mp hv
    cases htext : text.toList with
    | nil => simp [htext] at hhead
    | cons c rest =>
      refine ⟨c, rest, htext, if_pos ?_⟩
      simpa [htext] using hhead
  | str s => exact ⟨'"', _, rfl, rfl⟩
  | arr items => exact ⟨'[', _, rfl, rfl⟩
  | obj fields => exact ⟨'{', _, rfl, rfl⟩

theorem canonicalJson_cons (hv : ValidTo n v) {close : Char} (hclose : kindOf close = none) :
    ∃ c rest, canonicalJson printable n v = c :: rest ∧ c ≠ close := by
  cases n with
  | zero =>
    refine ⟨'"', _, rfl, ?_⟩
    rintro rfl
    cases hclose
  | succ n =>
    obtain ⟨c, rest, htext, hkind⟩ := @canonicalJson_head printable n v hv
    refine ⟨c, rest, htext, ?_⟩
    rintro rfl
    rw [hclose] at hkind
    cases hkind

theorem numberText_not_closes {text : String} (h : numberText text.toList = true) :
    ∀ c ∈ text.toList, ¬ Closes c := by
  intro c hc hcloses
  have hchar := List.all_eq_true.mp (Bool.and_eq_true_iff.mp h).2 c hc
  rcases hcloses with rfl | rfl | rfl <;> simp at hchar

theorem mem_sortByKey {fields : List (String × Json)} {p : String × Json} :
    p ∈ sortByKey fields ↔ p ∈ fields :=
  List.mem_insertionSort _

/-- Fields that agree in sorted order agree up to their order. -/
theorem sameTo_of_sorted {fields fields' : List (String × Json)}
    (h : List.Forall₂ (fun p q => p.1 = q.1 ∧ SameTo n p.2 q.2) (sortByKey fields)
      (sortByKey fields')) : SameTo (n + 1) (.obj fields) (.obj fields') := by
  have hperm := (List.perm_insertionSort (fun a b : String × Json => a.1 ≤ b.1) fields).symm
  obtain ⟨reordered, hall, hreordered⟩ := List.perm_comp_forall₂ hperm h
  exact ⟨reordered, hall, hreordered.trans (List.perm_insertionSort _ _)⟩

/-- The text of a value is read off the front of any text that goes on as one of an array or an
object does. -/
theorem canonicalJson_readable (n : ℕ) :
    Readable (ValidTo n) (SameTo n) Closes (canonicalJson printable n) := by
  induction n with
  | zero => exact fun _ _ _ _ _ _ _ _ heq => ⟨trivial, List.append_cancel_left heq⟩
  | succ n ih =>
    intro v v' hv hv' x y hx hy heq
    have hkind : kind v = kind v' := by
      obtain ⟨c, rest, htext, hc⟩ := @canonicalJson_head printable n v hv
      obtain ⟨c', rest', htext', hc'⟩ := @canonicalJson_head printable n v' hv'
      rw [htext, htext'] at heq
      rw [(List.cons.inj heq).1, hc'] at hc
      exact (Option.some.inj hc).symm
    cases v with
    | null =>
      cases v' with
      | null => exact ⟨rfl, List.append_cancel_left heq⟩
      | bool b => cases b <;> cases hkind
      | _ => cases hkind
    | bool b =>
      cases v' with
      | bool b' =>
        obtain rfl : b = b' := by cases b <;> cases b' <;> first | rfl | cases hkind
        exact ⟨rfl, List.append_cancel_left heq⟩
      | _ => cases b <;> cases hkind
    | num text =>
      cases v' with
      | num text' =>
        obtain ⟨htext, hxy⟩ := readable_word Closes (numberText_not_closes hv)
          (numberText_not_closes hv') hx hy heq
        exact ⟨congrArg Json.num (String.toList_inj.mp htext), hxy⟩
      | bool b => cases b <;> cases hkind
      | _ => cases hkind
    | str s =>
      cases v' with
      | str s' =>
        obtain ⟨hs, hxy⟩ := serdeQuoted_delimited trivial trivial (ends_true _) (ends_true _) heq
        exact ⟨congrArg Json.str hs, hxy⟩
      | bool b => cases b <;> cases hkind
      | _ => cases hkind
    | arr items =>
      cases v' with
      | arr items' =>
        have hlist := ih.list (.inl rfl) (.inr (.inl rfl)) (by decide)
          fun v hv => canonicalJson_cons hv rfl
        exact hlist hv hv' (ends_true _) (ends_true _) (List.cons.inj heq).2
      | bool b => cases b <;> cases hkind
      | _ => cases hkind
    | obj fields =>
      cases v' with
      | obj fields' =>
        have hkeys : Readable (fun _ => True) Eq (fun c => c = ':') (quoted (debugEscape printable)) :=
          (debugQuoted_delimited printable).mono (fun _ _ => trivial) (fun _ _ h => h)
            fun _ _ => trivial
        have hlist := (hkeys.pair ih).list (.inl rfl) (.inr (.inr rfl)) (by decide)
          fun p hp => ⟨'"', _, rfl, by decide⟩
        obtain ⟨hall, hxy⟩ := hlist (fun p hp => ⟨trivial, hv.2 p (mem_sortByKey.mp hp)⟩)
          (fun p hp => ⟨trivial, hv'.2 p (mem_sortByKey.mp hp)⟩) (ends_true _) (ends_true _)
          (List.cons.inj heq).2
        exact ⟨sameTo_of_sorted hall, hxy⟩
      | bool b => cases b <;> cases hkind
      | _ => cases hkind

/-! ## Equal values, equal texts -/

theorem map_eq_of_forall₂ {α β : Type} {R : α → α → Prop} {f : α → β} {l l' : List α}
    (h : List.Forall₂ R l l') (hf : ∀ a ∈ l, ∀ b ∈ l', R a b → f a = f b) : l.map f = l'.map f := by
  induction h with
  | nil => rfl
  | cons hab _ ih =>
    have hhead := hf _ (List.mem_cons_self ..) _ (List.mem_cons_self ..) hab
    have htail := ih fun a ha b hb => hf a (List.mem_cons_of_mem _ ha) b (List.mem_cons_of_mem _ hb)
    rw [List.map_cons, List.map_cons, hhead, htail]

theorem sortByKey_pairwise {fields : List (String × Json)} (h : (fields.map Prod.fst).Nodup) :
    (sortByKey fields).Pairwise fun a b => a.1 < b.1 := by
  have hle : (sortByKey fields).Pairwise fun a b => a.1 ≤ b.1 :=
    List.pairwise_insertionSort (fun a b : String × Json => a.1 ≤ b.1) fields
  have hkeys : ((sortByKey fields).map Prod.fst).Nodup :=
    ((List.perm_insertionSort _ fields).map Prod.fst).nodup_iff.mpr h
  have hne : (sortByKey fields).Pairwise fun a b => a.1 ≠ b.1 := List.pairwise_map.mp hkeys
  exact (hle.and hne).imp fun h => lt_of_le_of_ne h.1 h.2

/-- The sorted fields of equal objects agree one by one. -/
theorem forall₂_sortByKey {fields fields' reordered : List (String × Json)}
    (hnodup : (fields.map Prod.fst).Nodup) (hnodup' : (fields'.map Prod.fst).Nodup)
    (hall : List.Forall₂ (fun p q => p.1 = q.1 ∧ SameTo n p.2 q.2) fields reordered)
    (hperm : reordered.Perm fields') :
    List.Forall₂ (fun p q => p.1 = q.1 ∧ SameTo n p.2 q.2) (sortByKey fields)
      (sortByKey fields') := by
  obtain ⟨sorted, hsorted, hperm'⟩ :=
    List.perm_comp_forall₂ (List.perm_insertionSort (fun a b => a.1 ≤ b.1) fields) hall
  have hkeys : (sortByKey fields).map Prod.fst = sorted.map Prod.fst := by
    have hfst : List.Forall₂ (fun p q => p.1 = q.1) (sortByKey fields) sorted :=
      hsorted.imp fun _ _ h => h.1
    rwa [← List.forall₂_eq_eq_eq, List.forall₂_map_left_iff, List.forall₂_map_right_iff]
  have hstrict : sorted.Pairwise fun a b => a.1 < b.1 := by
    have hpairs := List.pairwise_map.mpr (sortByKey_pairwise hnodup)
    rw [hkeys] at hpairs
    exact List.pairwise_map.mp hpairs
  have hsame : sorted = sortByKey fields' := by
    refine List.Perm.eq_of_pairwise (fun a b _ _ hab hba => ?_) hstrict (sortByKey_pairwise hnodup') ?_
    · exact absurd hba (lt_asymm hab)
    · exact (hperm'.trans hperm).trans (List.perm_insertionSort _ fields').symm
  exact hsame ▸ hsorted

theorem canonicalJson_congr (h : SameTo n v v') (hv : ValidTo n v) (hv' : ValidTo n v') :
    canonicalJson printable n v = canonicalJson printable n v' := by
  induction n generalizing v v' with
  | zero => rfl
  | succ n ih =>
    cases v with
    | obj fields =>
      cases v' with
      | obj fields' =>
        obtain ⟨reordered, hall, hperm⟩ := h
        have htexts := map_eq_of_forall₂
          (f := fun p => quoted (debugEscape printable) p.1 ++ ':' :: canonicalJson printable n p.2)
          (forall₂_sortByKey hv.1 hv'.1 hall hperm) fun p hp q hq hpq => by
            rw [hpq.1, ih hpq.2 (hv.2 p (mem_sortByKey.mp hp)) (hv'.2 q (mem_sortByKey.mp hq))]
        rw [canonicalJson, canonicalJson, htexts]
      | _ => cases h
    | arr items =>
      cases v' with
      | arr items' =>
        have htexts := map_eq_of_forall₂ h fun a ha b hb hab => ih hab (hv a ha) (hv' b hb)
        rw [canonicalJson, canonicalJson, htexts]
      | _ => cases h
    | null | bool b | num text | str s => 
      cases v' <;> cases h
      rfl

/-- Two values have one text exactly when they are equal down to the depth, up to the order of
keys. -/
theorem canonicalJson_eq_iff (hv : ValidTo n v) (hv' : ValidTo n v') :
    canonicalJson printable n v = canonicalJson printable n v' ↔ SameTo n v v' :=
  ⟨fun h => (canonicalJson_readable n).inj hv hv' h, fun h => canonicalJson_congr h hv hv'⟩

end Values

end Veronex.Mcp
