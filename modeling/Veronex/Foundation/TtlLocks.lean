import Mathlib.Data.List.Pairwise
import Mathlib.Data.List.Perm.Basic
import Mathlib.Logic.Function.Basic
import Mathlib.Tactic.Common

/-! # Locks that run out

A store keeps each key until an expiry. An owner that sets a key holds a lease on it for as long,
and gives the lease up by deleting the key. `Exclusive`: the leases on a key that still run are at
most one, and the store has the key for just as long.

The store itself looks at no owner. A key that is set where it is absent, and a key that is deleted
where it is absent or where the own lease on it still runs, keep `Exclusive`.
-/
namespace Concurrency
set_option autoImplicit false

universe u v
variable {κ : Type u} {ο : Type v}

structure Lease (κ : Type u) (ο : Type v) where
  owner : ο
  key : κ
  expiresAt : ℕ
  deriving DecidableEq

/-- The lease on `key` still runs. -/
def Lease.RunsOn (now : ℕ) (key : κ) (e : Lease κ ο) : Prop := e.key = key ∧ now < e.expiresAt

instance [DecidableEq κ] (now : ℕ) (key : κ) (e : Lease κ ο) : Decidable (e.RunsOn now key) :=
  inferInstanceAs (Decidable (_ ∧ _))

/-- A key is there until its expiry. -/
def Absent (now : ℕ) (expiry : κ → Option ℕ) (key : κ) : Prop :=
  ∀ t, expiry key = some t → t ≤ now

structure Exclusive (now : ℕ) (expiry : κ → Option ℕ) (leases : List (Lease κ ο)) : Prop where
  stored : ∀ e ∈ leases, now < e.expiresAt → expiry e.key = some e.expiresAt
  single : ∀ key, leases.Pairwise fun e e' => e.RunsOn now key → ¬ e'.RunsOn now key

namespace Exclusive
variable {now : ℕ} {expiry : κ → Option ℕ} {leases leases' : List (Lease κ ο)} {e e' : Lease κ ο}
  {key : κ} {t : ℕ}

theorem nil : Exclusive now expiry ([] : List (Lease κ ο)) where
  stored := List.forall_mem_nil _
  single _ := List.Pairwise.nil

theorem perm (h : Exclusive now expiry leases) (hperm : leases.Perm leases') :
    Exclusive now expiry leases' where
  stored e he := h.stored e (hperm.mem_iff.mpr he)
  single key := (hperm.pairwise_iff fun {_ _} hne he' he => hne he he').mp (h.single key)

theorem later (h : Exclusive now expiry leases) {now' : ℕ} (hle : now ≤ now') :
    Exclusive now' expiry leases where
  stored e he hrun := h.stored e he (Nat.lt_of_le_of_lt hle hrun)
  single key := by
    refine (h.single key).imp fun {e e'} hne he he' => ?_
    exact hne ⟨he.1, Nat.lt_of_le_of_lt hle he.2⟩ ⟨he'.1, Nat.lt_of_le_of_lt hle he'.2⟩

/-- Two leases on a key that both run are one. -/
theorem eq_of_runsOn (h : Exclusive now expiry leases) (he : e ∈ leases) (he' : e' ∈ leases)
    (hrun : e.RunsOn now key) (hrun' : e'.RunsOn now key) : e = e' := by
  by_contra hne
  have hsymm : Std.Symm fun a b : Lease κ ο => a.RunsOn now key → ¬ b.RunsOn now key :=
    ⟨fun a b hab hb ha => hab ha hb⟩
  exact (h.single key).forall he he' hne hrun hrun'

theorem not_runsOn_of_absent (h : Exclusive now expiry leases) (habsent : Absent now expiry key)
    (he : e ∈ leases) : ¬ e.RunsOn now key := by
  rintro ⟨rfl, hrun⟩
  have hle := habsent _ (h.stored e he hrun)
  omega

/-- A lease is given up without a word to the store. -/
theorem drop (h : Exclusive now expiry (e :: leases)) : Exclusive now expiry leases where
  stored e' he' := h.stored e' (List.mem_cons_of_mem _ he')
  single key := (List.pairwise_cons.mp (h.single key)).2

variable [DecidableEq κ]

/-- What the store does with a key on which no lease runs makes no difference. -/
theorem update (h : Exclusive now expiry leases) (hnone : ∀ e ∈ leases, ¬ e.RunsOn now key)
    (value : Option ℕ) : Exclusive now (Function.update expiry key value) leases where
  stored e he hrun := by
    have hne : e.key ≠ key := fun heq => hnone e he ⟨heq, hrun⟩
    rw [Function.update_of_ne hne]
    exact h.stored e he hrun
  single := h.single

theorem set (h : Exclusive now expiry leases) (habsent : Absent now expiry key)
    (value : Option ℕ) : Exclusive now (Function.update expiry key value) leases :=
  h.update (fun _ he => h.not_runsOn_of_absent habsent he) value

/-- The key is set, and the lease begins. -/
theorem grant (h : Exclusive now expiry leases) {owner : ο} (habsent : Absent now expiry key) :
    Exclusive now (Function.update expiry key (some t)) (⟨owner, key, t⟩ :: leases) where
  stored e he hrun := by
    rcases List.mem_cons.mp he with rfl | he
    · exact Function.update_self ..
    · exact (h.set habsent (some t)).stored e he hrun
  single key' := by
    refine List.pairwise_cons.mpr ⟨fun e he hnew hrun => ?_, h.single key'⟩
    have hkey : key = key' := hnew.1
    exact h.not_runsOn_of_absent (hkey ▸ habsent) he hrun

/-- The key is deleted, and the lease ends. -/
theorem release (h : Exclusive now expiry (e :: leases))
    (hown : now < e.expiresAt ∨ Absent now expiry e.key) :
    Exclusive now (Function.update expiry e.key none) leases := by
  refine h.drop.update (fun e' he' hrun' => ?_) none
  rcases hown with hrun | habsent
  · exact (List.pairwise_cons.mp (h.single e.key)).1 e' he' ⟨rfl, hrun⟩ hrun'
  · exact h.not_runsOn_of_absent habsent (List.mem_cons_of_mem _ he') hrun'

end Exclusive

end Concurrency
