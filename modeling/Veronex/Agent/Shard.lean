import Mathlib.Algebra.GroupWithZero.Nat
import Mathlib.Data.List.Count
import Mathlib.Tactic.Common

/-! # Shards of the agents

`veronex-agent/src/shard.rs`. An agent pod owns the ids whose hash modulo the number of replicas is
its ordinal. `DefaultHasher` does not say what it computes, so the hash is a parameter.
-/
namespace Veronex.Agent
set_option autoImplicit false

/-- The digits of a number that is parsed from text. -/
def digits (text : List Char) : Option ℕ :=
  if text ≠ [] ∧ text.all Char.isDigit then
    some (text.foldl (fun n c => 10 * n + (c.toNat - '0'.toNat)) 0)
  else none

/-- `str::parse` of an unsigned type, which takes a leading plus. -/
def parseUnsigned (bits : ℕ) (text : List Char) : Option ℕ :=
  (match text with
    | '+' :: text => digits text
    | _ => digits text).filter (· < 2 ^ bits)

def parseU32 (text : List Char) : Option ℕ := parseUnsigned 32 text

def parseU64 (text : List Char) : Option ℕ := parseUnsigned 64 text

/-- `ordinal_from_hostname`, of a `HOSTNAME` that is set. -/
def ordinalFromHostname (hostname : String) : ℕ :=
  (parseU32 (hostname.toList.reverse.takeWhile (· ≠ '-')).reverse).getD 0

example : ordinalFromHostname "veronex-agent-2" = 2 := by decide +kernel
example : ordinalFromHostname "no-number-here" = 0 := by decide +kernel

section Owns
variable (hasher : String → ℕ)

def owns (serverId : String) (ordinal replicas : ℕ) : Bool :=
  decide (replicas ≤ 1) || decide (hasher serverId % replicas = ordinal)

end Owns

/-- Ordinals that split the ids among this many replicas. -/
def Partitions (ordinals : List ℕ) (replicas : ℕ) : Prop :=
  if replicas ≤ 1 then ordinals.length = 1 else ∀ r < replicas, ordinals.count r = 1

instance (ordinals : List ℕ) (replicas : ℕ) : Decidable (Partitions ordinals replicas) := by
  unfold Partitions
  exact inferInstance

theorem countP_owns {hasher : String → ℕ} {id : String} {ordinals : List ℕ} {replicas : ℕ} :
    ordinals.countP (fun o => owns hasher id o replicas) =
      if replicas ≤ 1 then ordinals.length else ordinals.count (hasher id % replicas) := by
  by_cases hfew : replicas ≤ 1
  · simp [owns, hfew]
  · rw [if_neg hfew, List.count_eq_countP]
    refine List.countP_congr fun o _ => ?_
    simp only [owns, hfew, decide_false, Bool.false_or, decide_eq_true_eq, beq_iff_eq]
    exact eq_comm

/-- Every id has one owner, whatever its hash, exactly when the ordinals split the ids. -/
theorem owned_once_iff {ordinals : List ℕ} {replicas : ℕ} :
    (∀ (hasher : String → ℕ) (id : String),
      ordinals.countP (fun o => owns hasher id o replicas) = 1) ↔
      Partitions ordinals replicas := by
  simp only [countP_owns, Partitions]
  by_cases hfew : replicas ≤ 1
  · simp [hfew]
  · simp only [if_neg hfew]
    constructor
    · intro hone r hr
      have hr' := hone (fun _ => r) ""
      rwa [Nat.mod_eq_of_lt hr] at hr'
    · intro hone hasher id
      exact hone _ (Nat.mod_lt _ (by omega))

end Veronex.Agent
