import Mathlib.Data.List.AList
import Veronex.Agent.Shard
import Veronex.Mcp.CanonicalJson
import Veronex.Mcp.ForcedJson

/-! # OTLP in JSON

`veronex-consumer/src/otlp.rs`: attributes as a map of strings, and times in nanoseconds. How a
floating-point number is written is a parameter, `Floats`.
-/
namespace Veronex
set_option autoImplicit false
open Mcp (sortByKey)
open Agent (digits parseUnsigned parseU64)

namespace Json

def asArray : Json → Option (List Json)
  | arr items => some items
  | _ => none

def asBool : Json → Option Bool
  | bool b => some b
  | _ => none

/-- The text of the number that `as_f64` reads. -/
def asF64 : Json → Option String
  | num text => some text
  | _ => none

def asI64 : Json → Option ℤ
  | num text =>
    (match text.toList with
      | '-' :: text => (digits text).map fun n => -(n : ℤ)
      | text => (digits text).map fun n => (n : ℤ)).filter
        fun i => -2 ^ 63 ≤ i ∧ i < 2 ^ 63
  | _ => none

def ofNat (n : ℕ) : Json := num n.repr

theorem get_obj_nil (key : String) : (obj []).get key = none := rfl

theorem get_obj_cons (key key' : String) (v : Json) (rest : List (String × Json)) :
    (obj ((key', v) :: rest)).get key = if key = key' then some v else (obj rest).get key := by
  by_cases hkey : key = key'
  · simp [get, hkey]
  · have hbeq : (key == key') = false := beq_false_of_ne hkey
    rw [if_neg hkey, get, get, List.lookup_cons, hbeq]

end Json

namespace Telemetry

/-- `display` is `f64::to_string`, `json` is what `serde_json` writes; both of the text of a number. -/
structure Floats where
  display : String → String
  json : String → String

/-- `HashMap<String, String>` -/
abbrev AttrMap := AList fun _ : String => String

namespace AttrMap

/-- `.get(key).cloned().unwrap_or_default()` -/
def text (m : AttrMap) (key : String) : String := (m.lookup key).getD ""

/-- `.get(key).and_then(|v| v.parse().ok()).unwrap_or(0)` -/
def number (m : AttrMap) (bits : ℕ) (key : String) : ℕ :=
  ((m.lookup key).bind fun v => parseUnsigned bits v.toList).getD 0

def ofList (entries : List (String × String)) : AttrMap :=
  entries.foldl (fun m e => m.insert e.1 e.2) ∅

/-- The map as an object, whose keys `serde_json` keeps sorted. -/
def toJson (m : AttrMap) : Json :=
  .obj (sortByKey (m.entries.map fun e => (e.1, .str e.2)))

end AttrMap

def anyValueToString (floats : Floats) (v : Json) : String :=
  match (v.get "stringValue").bind Json.asStr with
  | some s => s
  | none =>
    match (v.get "intValue").bind Json.asStr with
    | some s => s
    | none =>
      match (v.get "asDouble").bind Json.asF64 with
      | some n => floats.display n
      | none =>
        match (v.get "boolValue").bind Json.asBool with
        | some b => if b then "true" else "false"
        | none => ""

/-- One item of the array; an item without a key is passed over. -/
def keyValue (floats : Floats) (item : Json) : Option (String × String) :=
  ((item.get "key").bind Json.asStr).map fun key =>
    (key, ((item.get "value").map (anyValueToString floats)).getD "")

def attrsToMap (floats : Floats) (attrs : Option Json) : AttrMap :=
  match attrs.bind Json.asArray with
  | none => ∅
  | some items => .ofList (items.filterMap (keyValue floats))

def nanoStrToNs (s : String) : ℕ := (parseU64 s.toList).getD 0

def nanoStrToMs (s : String) : ℕ := (parseU64 s.toList).getD 0 / 1000000

/-! ## Numbers in decimal -/

theorem digits_toDigits (n : ℕ) : digits (Nat.toDigits 10 n) = some n := by
  have hall : (Nat.toDigits 10 n).all Char.isDigit := by
    rw [List.all_eq_true]
    exact fun c hc => Nat.isDigit_of_mem_toDigits (by decide) (by decide) hc
  have hne : Nat.toDigits 10 n ≠ [] := Nat.toDigits_ne_nil
  rw [digits, if_pos ⟨hne, hall⟩]
  exact congrArg some Nat.ofDigitChars_ten_toDigits

theorem parseUnsigned_repr {bits n : ℕ} (h : n < 2 ^ bits) :
    parseUnsigned bits n.repr.toList = some n := by
  have hplus : ∀ rest, Nat.toDigits 10 n ≠ '+' :: rest := by
    intro rest heq
    have hmem : '+' ∈ Nat.toDigits 10 n := heq ▸ List.mem_cons_self
    have hdigit := Nat.isDigit_of_mem_toDigits (by decide) (by decide) hmem
    exact absurd hdigit (by decide)
  rw [Nat.toList_repr, parseUnsigned]
  · rw [digits_toDigits]
    simp [h]
  · exact hplus

theorem nanoStrToMs_repr {n : ℕ} (h : n < 2 ^ 64) : nanoStrToMs n.repr = n / 1000000 := by
  rw [nanoStrToMs, parseU64, parseUnsigned_repr h, Option.getD_some]

/-! ## Attributes -/

namespace AttrMap

/-- The last entry of a key counts, else what the map had before. -/
theorem lookup_foldl_insert (entries : List (String × String)) (m : AttrMap) (key : String) :
    (entries.foldl (fun (m : AttrMap) e => m.insert e.1 e.2) m).lookup key =
      (entries.reverse.lookup key).or (m.lookup key) := by
  induction entries using List.reverseRecOn with
  | nil => simp
  | append_singleton entries e ih =>
    rw [List.foldl_concat, List.reverse_append, List.reverse_singleton, List.singleton_append,
      List.lookup_cons]
    by_cases hkey : key = e.1
    · subst hkey
      simp [AList.lookup_insert]
    · have hbeq : (key == e.1) = false := beq_false_of_ne hkey
      rw [AList.lookup_insert_ne hkey, ih, hbeq]

theorem lookup_ofList (entries : List (String × String)) (key : String) :
    (ofList entries).lookup key = entries.reverse.lookup key := by
  rw [ofList, lookup_foldl_insert]
  simp

end AttrMap

end Telemetry

end Veronex
