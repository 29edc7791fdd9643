import Mathlib.Tactic.Common

/-! # Programs of atomic calls

A sequential program that works on a shared component through calls, as the tree of the calls it
makes: after a call `c` it goes on with what the reply `R c` makes it do. `Program.run` is the
program when nothing comes between its calls; `Program.next` hands its next call to a scheduler that
lets others in between.

`run_then`, `run_forEach` and `run_keep` say what the sequential constructs do under `run`.
-/
namespace Concurrency
set_option autoImplicit false

universe u w

/-- A program that makes calls from `C`, gets replies of type `R` and returns an `α`. -/
inductive Program (C : Type u) (R : C → Type) (α : Type) : Type u
  | done (a : α)
  | call (c : C) (k : R c → Program C R α)

namespace Program
variable {C : Type u} {R : C → Type} {α β : Type} {σ : Type w}

/-- One call; its reply is the result. -/
def perform (c : C) : Program C R (R c) := .call c .done

def bind : Program C R α → (α → Program C R β) → Program C R β
  | .done a, f => f a
  | .call c k, f => .call c fun r => (k r).bind f

instance : Monad (Program C R) where
  pure := .done
  bind := bind

/-- The next call and what follows it; none once the program has ended. -/
def next : Program C R α → Option ((c : C) × (R c → Program C R α))
  | .done _ => none
  | .call c k => some ⟨c, k⟩

/-- The result and the final state of a program that runs alone. -/
def run (handle : (c : C) → σ → R c × σ) : Program C R α → σ → α × σ
  | .done a, s => (a, s)
  | .call c k, s => (k (handle c s).1).run handle (handle c s).2

/-- `for x in xs { f(x) }` -/
def forEach {ι : Type*} (f : ι → Program C R Unit) : List ι → Program C R Unit
  | [] => pure ()
  | x :: xs => do
    f x
    forEach f xs

/-- `xs.filter(p)` with a test that makes calls. -/
def keep {ι : Type} (p : ι → Program C R Bool) : List ι → Program C R (List ι)
  | [] => pure []
  | x :: xs => do
    let kept ← p x
    let rest ← keep p xs
    pure (if kept then x :: rest else rest)

section Run
variable {handle : (c : C) → σ → R c × σ} {s : σ}

theorem run_pure (a : α) : (pure a : Program C R α).run handle s = (a, s) := rfl

theorem run_perform {c : C} : (perform c : Program C R (R c)).run handle s = handle c s :=
  rfl

theorem run_bind (p : Program C R α) (f : α → Program C R β) :
    (p >>= f).run handle s = (f (p.run handle s).1).run handle (p.run handle s).2 := by
  show (bind p f).run handle s = _
  induction p generalizing s with
  | done a => rfl
  | call c k ih => exact ih (handle c s).1

theorem run_then {x : Program C R α} {f : α → Program C R β} {a : α} {t : σ}
    (h : x.run handle s = (a, t)) : (x >>= f).run handle s = (f a).run handle t := by
  rw [run_bind, h]

theorem run_ite (p : Prop) [Decidable p] (x y : Program C R α) :
    (if p then x else y).run handle s = if p then x.run handle s else y.run handle s := by
  split <;> rfl

/-- A loop is a fold of what its body does. -/
theorem run_forEach {ι : Type*} {f : ι → Program C R Unit} {g : σ → ι → σ}
    (h : ∀ s x, ((f x).run handle s).2 = g s x) (xs : List ι) :
    ((forEach f xs).run handle s).2 = xs.foldl g s := by
  induction xs generalizing s with
  | nil => rfl
  | cons x xs ih => rw [forEach, run_bind, h, ih, List.foldl_cons]

/-- A test that only reads filters by what it reads. -/
theorem run_keep {ι : Type} {p : ι → Program C R Bool} {q : ι → Bool}
    (h : ∀ x, (p x).run handle s = (q x, s)) (xs : List ι) :
    (keep p xs).run handle s = (xs.filter q, s) := by
  induction xs with
  | nil => rfl
  | cons x xs ih =>
    rw [keep, run_bind, h, run_bind, ih, run_pure, List.filter_cons]

end Run

end Program

end Concurrency
