import Mathlib.Data.List.Basic
import Mathlib.Data.List.Induction
import Mathlib.Logic.Function.Basic
import Mathlib.Tactic.Common

/-! # Groups along chains of keys

Every element of a list has a key and may name the key of a parent. The elements are given groups in
the order of the list: an element takes the group its parent's key was last registered with, or a
fresh one where there is none, and registers its own key with it (`assign`).

`start` says which group that is without any map: follow the parents, each time to the latest
earlier element with the key, up to an element that has none or to a key known from before.
-/
namespace Concurrency.KeyChain
set_option autoImplicit false

variable {α κ τ γ : Type} [DecidableEq κ]

/-! ## Lists whose neighbours agree -/

theorem exists_common_iff {f : α → τ} {l : List α} (hne : l ≠ []) :
    (∃ c, ∀ a ∈ l, f a = c) ↔ l.IsChain fun a b => f a = f b := by
  constructor
  · rintro ⟨c, hc⟩
    refine List.Pairwise.isChain (List.pairwise_of_forall_mem_list fun a ha b hb => ?_)
    rw [hc a ha, hc b hb]
  · intro hchain
    obtain ⟨first, rest, rfl⟩ := List.exists_cons_of_ne_nil hne
    refine ⟨f first, fun a ha => ?_⟩
    have htrans : (first :: rest).Pairwise fun a b => f a = f b :=
      haveI : IsTrans α fun a b => f a = f b := ⟨fun _ _ _ h h' => h.trans h'⟩
      List.isChain_iff_pairwise.mp hchain
    rcases List.mem_cons.mp ha with rfl | ha
    · rfl
    · exact ((List.pairwise_cons.mp htrans).1 a ha).symm

/-- Two relations that agree on the neighbours of a chain have it as a chain together. -/
theorem isChain_congr_of_isChain {N R S : α → α → Prop} {l : List α} (hchain : l.IsChain N)
    (h : ∀ a ∈ l, ∀ b ∈ l, N a b → (R a b ↔ S a b)) : l.IsChain R ↔ l.IsChain S := by
  induction hchain with
  | nil => simp
  | singleton a => simp
  | cons_cons hab _ ih =>
    have htail := ih fun x hx y hy => h x (List.mem_cons_of_mem _ hx) y (List.mem_cons_of_mem _ hy)
    rw [List.isChain_cons_cons, List.isChain_cons_cons, htail]
    exact and_congr_left fun _ => h _ (by simp) _ (by simp) hab

/-! ## The pass over the list -/

section Assign
variable (key : α → κ) (parent : α → Option κ) (fresh : α → τ)

def groupOf (groups : κ → Option τ) (a : α) : τ := ((parent a).bind groups).getD (fresh a)

def register (groups : κ → Option τ) (a : α) : κ → Option τ :=
  Function.update groups (key a) (some (groupOf parent fresh groups a))

def assign : (κ → Option τ) → List α → List (α × τ)
  | _, [] => []
  | groups, a :: rest =>
    (a, groupOf parent fresh groups a) :: assign (register key parent fresh groups a) rest

variable {key parent fresh}

theorem assign_append (groups : κ → Option τ) (l m : List α) :
    assign key parent fresh groups (l ++ m) = assign key parent fresh groups l ++
      assign key parent fresh (l.foldl (register key parent fresh) groups) m := by
  induction l generalizing groups with
  | nil => rfl
  | cons a l ih =>
    have h := ih (register key parent fresh groups a)
    simp only [List.cons_append, assign, List.foldl_cons, h]

theorem map_fst_assign (groups : κ → Option τ) (l : List α) :
    (assign key parent fresh groups l).map Prod.fst = l := by
  induction l generalizing groups with
  | nil => rfl
  | cons a l ih =>
    have h := ih (register key parent fresh groups a)
    simp only [assign, List.map_cons, h]

end Assign

/-! ## Where a key leads -/

section Start
variable (key : α → κ) (parent : α → Option κ) (known : κ → Option γ)

/-- Where a key leads among earlier elements, the latest first. -/
def origin : List α → κ → Option (α ⊕ γ)
  | [], k => (known k).map .inr
  | a :: earlier, k =>
    if key a = k then some (((parent a).bind (origin earlier)).getD (.inl a))
    else origin earlier k

def start (earlier : List α) (a : α) : α ⊕ γ :=
  ((parent a).bind (origin key parent known earlier)).getD (.inl a)

variable {key parent known} {earlier : List α} {k : κ}

theorem origin_cons_self (a : α) :
    origin key parent known (a :: earlier) (key a) = some (start key parent known earlier a) := by
  simp only [origin, if_true, start]

/-- A key that leads somewhere is the key of an earlier element or known from before. -/
theorem exists_of_origin {r : α ⊕ γ} (h : origin key parent known earlier k = some r) :
    (∃ c ∈ earlier, key c = k) ∨ (known k).isSome := by
  induction earlier with
  | nil =>
    have hknown : ((known k).map Sum.inr : Option (α ⊕ γ)).isSome := by
      rw [show (known k).map Sum.inr = some r from h]
      rfl
    exact .inr (by simpa using hknown)
  | cons a earlier ih =>
    by_cases hk : key a = k
    · exact .inl ⟨a, by simp, hk⟩
    · rw [origin, if_neg hk] at h
      rcases ih h with ⟨c, hc, hck⟩ | hknown
      · exact .inl ⟨c, List.mem_cons_of_mem a hc, hck⟩
      · exact .inr hknown

theorem start_cases {a : α} {r : α ⊕ γ} (h : start key parent known earlier a = r) :
    r = .inl a ∨ ∃ p, parent a = some p ∧ origin key parent known earlier p = some r := by
  unfold start at h
  cases hp : parent a with
  | none =>
    rw [hp] at h
    exact .inl h.symm
  | some p =>
    rw [hp, Option.bind_some] at h
    cases ho : origin key parent known earlier p with
    | none =>
      rw [ho] at h
      exact .inl h.symm
    | some r' =>
      rw [ho, Option.getD_some] at h
      exact .inr ⟨p, rfl, by rw [ho, h]⟩

theorem mem_of_origin {c : α} (h : origin key parent known earlier k = some (.inl c)) :
    c ∈ earlier := by
  induction earlier generalizing k with
  | nil => simp [origin] at h
  | cons a earlier ih =>
    by_cases hk : key a = k
    · rw [← hk, origin_cons_self, Option.some.injEq] at h
      rcases start_cases h with hself | ⟨p, -, hlead⟩
      · rw [Sum.inl.inj hself]
        exact List.mem_cons_self
      · exact List.mem_cons_of_mem a (ih hlead)
    · rw [origin, if_neg hk] at h
      exact List.mem_cons_of_mem a (ih h)

theorem known_of_origin {g : γ} (h : origin key parent known earlier k = some (.inr g)) :
    ∃ j, known j = some g := by
  induction earlier generalizing k with
  | nil =>
    obtain ⟨g', hg, heq⟩ := Option.map_eq_some_iff.mp h
    cases heq
    exact ⟨k, hg⟩
  | cons a earlier ih =>
    by_cases hk : key a = k
    · rw [← hk, origin_cons_self, Option.some.injEq] at h
      rcases start_cases h with hself | ⟨p, -, hlead⟩
      · cases hself
      · exact ih hlead
    · rw [origin, if_neg hk] at h
      exact ih h

theorem mem_of_start {a c : α} (h : start key parent known earlier a = .inl c) :
    c = a ∨ c ∈ earlier := by
  rcases start_cases h with hself | ⟨p, -, ho⟩
  · exact .inl (Sum.inl.inj hself)
  · exact .inr (mem_of_origin ho)

theorem known_of_start {a : α} {g : γ} (h : start key parent known earlier a = .inr g) :
    ∃ j, known j = some g := by
  rcases start_cases h with hself | ⟨p, -, ho⟩
  · cases hself
  · exact known_of_origin ho

end Start

/-! ## The pass gives every element the group of its start -/

section Correct
variable {key : α → κ} {parent : α → Option κ} {fresh : α → τ} {known : κ → Option γ} {out : γ → τ}
  {groups : κ → Option τ}

/-- A map that leads where the keys lead gives an element the group of its start. -/
theorem groupOf_of_origin {earlier : List α}
    (h : ∀ k, groups k = (origin key parent known earlier k).map (Sum.elim fresh out)) (a : α) :
    groupOf parent fresh groups a = Sum.elim fresh out (start key parent known earlier a) := by
  unfold groupOf start
  cases hp : parent a with
  | none => rfl
  | some p =>
    have hparent := h p
    simp only [Option.bind_some, hparent]
    cases origin key parent known earlier p <;> rfl

theorem registered_eq (hknown : ∀ k, groups k = (known k).map out) (l : List α) (k : κ) :
    l.foldl (register key parent fresh) groups k =
      (origin key parent known l.reverse k).map (Sum.elim fresh out) := by
  induction l using List.reverseRecOn generalizing k with
  | nil =>
    rw [List.foldl_nil, hknown, List.reverse_nil, origin, Option.map_map]
    rfl
  | append_singleton l a ih =>
    rw [List.foldl_append, List.foldl_cons, List.foldl_nil, List.reverse_append,
      List.reverse_singleton, List.singleton_append]
    by_cases hk : key a = k
    · subst hk
      rw [register, Function.update_self, groupOf_of_origin ih, origin_cons_self, Option.map_some]
    · rw [register, Function.update_of_ne (Ne.symm hk), ih, origin, if_neg hk]

/-- In the pass over a list, an element gets the group of its start among those before it. -/
theorem assign_split (key : α → κ) (parent : α → Option κ) (fresh : α → τ)
    (hknown : ∀ k, groups k = (known k).map out) (l m : List α) (a : α) :
    ∃ done rest, done.map Prod.fst = l ∧ assign key parent fresh groups (l ++ a :: m) =
      done ++ (a, Sum.elim fresh out (start key parent known l.reverse a)) :: rest := by
  have h : assign key parent fresh groups (l ++ a :: m) = _ := assign_append groups l (a :: m)
  rw [assign, groupOf_of_origin (registered_eq hknown l)] at h
  exact ⟨_, _, map_fst_assign groups l, h⟩

end Correct

end Concurrency.KeyChain
