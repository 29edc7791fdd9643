import Mathlib.Data.List.Forall2
import Mathlib.Tactic.Common

/-! # Words that can be read off the front

`Readable P R stop enc`: where two words of `enc` begin the same text, and what follows either of them
is nothing or begins with a letter of `stop`, they stand for values related by `R` and the texts that
follow are one. `P` are the values this holds of.

Words over letters that do not stop (`readable_word`), quoted words (`Readable.quote`), pairs
(`Readable.pair`) and lists between a separator and a closing letter (`Readable.list`) are readable
when their parts are.
-/
namespace Words
set_option autoImplicit false

universe u v w
variable {α : Type u} {κ : Type v} {β : Type w}

/-- Nothing follows, or a letter of `stop`. -/
def Ends (stop : β → Prop) (x : List β) : Prop := ∀ c ∈ x.head?, stop c

theorem ends_nil (stop : β → Prop) : Ends stop [] := by
  simp [Ends]

theorem ends_cons {stop : β → Prop} {c : β} {x : List β} (h : stop c) : Ends stop (c :: x) := by
  simpa [Ends] using h

theorem ends_true (x : List β) : Ends (fun _ => True) x := fun _ _ => trivial

def Readable (P : α → Prop) (R : α → α → Prop) (stop : β → Prop) (enc : α → List β) : Prop :=
  ∀ ⦃a b⦄, P a → P b → ∀ ⦃x y⦄, Ends stop x → Ends stop y → enc a ++ x = enc b ++ y →
    R a b ∧ x = y

/-- Readable whatever follows. -/
def Delimited (R : α → α → Prop) (enc : α → List β) : Prop :=
  Readable (fun _ => True) R (fun _ => True) enc

section Readable
variable {P Q : α → Prop} {R S : α → α → Prop} {stop stop' : β → Prop} {enc : α → List β}

theorem Readable.mono (h : Readable P R stop enc) (hQ : ∀ a, Q a → P a) (hR : ∀ a b, R a b → S a b)
    (hstop : ∀ c, stop' c → stop c) : Readable Q S stop' enc := by
  intro a b ha hb x y hx hy heq
  obtain ⟨hab, hxy⟩ := h (hQ a ha) (hQ b hb) (fun c hc => hstop c (hx c hc))
    (fun c hc => hstop c (hy c hc)) heq
  exact ⟨hR a b hab, hxy⟩

theorem Readable.inj (h : Readable P R stop enc) {a b : α} (ha : P a) (hb : P b)
    (heq : enc a = enc b) : R a b :=
  (h ha hb (ends_nil stop) (ends_nil stop) (by rw [heq])).1

/-- Words over letters that do not stop. -/
theorem readable_word (stop : β → Prop) :
    Readable (fun s : List β => ∀ c ∈ s, ¬ stop c) Eq stop fun s => s := by
  intro s t
  induction s generalizing t with
  | nil =>
    intro _ ht x y hx _ heq
    cases t with
    | nil => exact ⟨rfl, heq⟩
    | cons d t =>
      have hd := hx d (by rw [List.nil_append] at heq; rw [heq]; rfl)
      exact absurd hd (ht d (List.mem_cons_self ..))
  | cons c s ih =>
    intro hs ht x y hx hy heq
    cases t with
    | nil =>
      have hc := hy c (by rw [List.nil_append] at heq; rw [← heq]; rfl)
      exact absurd hc (hs c (List.mem_cons_self ..))
    | cons d t =>
      rw [List.cons_append, List.cons_append] at heq
      obtain ⟨rfl, hrest⟩ := List.cons.inj heq
      obtain ⟨rfl, hxy⟩ := ih (fun e he => hs e (List.mem_cons_of_mem _ he))
        (fun e he => ht e (List.mem_cons_of_mem _ he)) hx hy hrest
      exact ⟨rfl, hxy⟩

/-- A list of code words up to a letter that none of them begins with. -/
theorem Delimited.quote {f : α → List β} {q : β} (hf : Delimited Eq f)
    (hq : ∀ a, ∃ c rest, f a = c :: rest ∧ c ≠ q) :
    Delimited Eq fun s : List α => s.flatMap f ++ [q] := by
  intro s t _ _ x y _ _ heq
  induction s generalizing t with
  | nil =>
    cases t with
    | nil => exact ⟨rfl, (List.cons.inj heq).2⟩
    | cons b t =>
      obtain ⟨c, rest, hb, hne⟩ := hq b
      simp only [List.flatMap_nil, List.flatMap_cons, hb, List.nil_append, List.cons_append] at heq
      exact absurd (List.cons.inj heq).1.symm hne
  | cons a s ih =>
    cases t with
    | nil =>
      obtain ⟨c, rest, ha, hne⟩ := hq a
      simp only [List.flatMap_nil, List.flatMap_cons, ha, List.nil_append, List.cons_append] at heq
      exact absurd (List.cons.inj heq).1 hne
    | cons b t =>
      simp only [List.flatMap_cons, List.append_assoc] at heq
      obtain ⟨rfl, hrest⟩ := hf trivial trivial (ends_true _) (ends_true _) heq
      simp only [← List.append_assoc] at hrest
      obtain ⟨rfl, hxy⟩ := ih hrest
      exact ⟨rfl, hxy⟩

/-! ## Escapes -/

/-- A letter as it is, by a short escape, or by the code of it. -/
def escaped (esc u : β) (short : β → Option β) (shown : β → Bool) (code : β → List β) (c : β) :
    List β :=
  match short c with
  | some e => [esc, e]
  | none => if shown c then [c] else esc :: u :: code c

section Escapes
variable {esc u q : β} {short : β → Option β} {shown : β → Bool} {code : β → List β}

theorem escaped_head (hq : (short q).isSome) (hne : esc ≠ q) (c : β) :
    ∃ d rest, escaped esc u short shown code c = d :: rest ∧ d ≠ q := by
  rw [escaped]
  cases hc : short c with
  | some e => exact ⟨esc, [e], rfl, hne⟩
  | none =>
    cases hshown : shown c with
    | true =>
      refine ⟨c, [], by simp, ?_⟩
      rintro rfl
      rw [hc] at hq
      cases hq
    | false => exact ⟨esc, u :: code c, by simp, hne⟩

/-- Escaped letters can be read when the short escapes differ from each other and from the letter that
begins a code, and the letter of the escapes is never written as it is. -/
theorem delimited_escaped (hshort : ∀ c d e, short c = some e → short d = some e → c = d)
    (hu : ∀ c, short c ≠ some u) (hesc : (short esc).isSome)
    (hcode : Readable (fun c => shown c = false) Eq (fun _ => True) code) :
    Delimited Eq (escaped esc u short shown code) := by
  have hliteral : ∀ c, short c = none → c ≠ esc := by
    rintro c hc rfl
    rw [hc] at hesc
    cases hesc
  intro c d _ _ x y _ _ heq
  simp only [escaped] at heq
  cases hc : short c with
  | some e =>
    cases hd : short d with
    | some e' =>
      simp only [hc, hd, List.cons_append, List.nil_append, List.cons.injEq, true_and] at heq
      exact ⟨hshort c d e hc (heq.1 ▸ hd), heq.2⟩
    | none =>
      simp only [hc, hd] at heq
      split at heq
      · exact absurd (List.cons.inj heq).1.symm (hliteral d hd)
      · simp only [List.cons_append, List.nil_append, List.cons.injEq, true_and] at heq
        exact absurd (heq.1 ▸ hc) (hu c)
  | none =>
    cases hd : short d with
    | some e' =>
      simp only [hc, hd] at heq
      split at heq
      · exact absurd (List.cons.inj heq).1 (hliteral c hc)
      · simp only [List.cons_append, List.nil_append, List.cons.injEq, true_and] at heq
        exact absurd (heq.1 ▸ hd) (hu d)
    | none =>
      simp only [hc, hd] at heq
      split at heq
      · split at heq
        · exact List.cons.inj heq
        · exact absurd (List.cons.inj heq).1 (hliteral c hc)
      · next hshown =>
        split at heq
        · exact absurd (List.cons.inj heq).1.symm (hliteral d hd)
        · next hshown' =>
          simp only [List.cons_append, List.cons.injEq, true_and] at heq
          exact hcode (by simpa using hshown) (by simpa using hshown') (ends_true _) (ends_true _) heq

end Escapes

/-! ## Pairs and lists -/

/-- A pair with a letter in between. -/
theorem Readable.pair {P' : κ → Prop} {R' : κ → κ → Prop} {key : κ → List β} {colon : β}
    (hk : Readable P' R' (fun c => c = colon) key) (hv : Readable P R stop enc) :
    Readable (fun p : κ × α => P' p.1 ∧ P p.2) (fun p q => R' p.1 q.1 ∧ R p.2 q.2) stop
      fun p => key p.1 ++ colon :: enc p.2 := by
  intro p q hp hq x y hx hy heq
  simp only [List.append_assoc, List.cons_append] at heq
  obtain ⟨hkey, hrest⟩ := hk hp.1 hq.1 (ends_cons rfl) (ends_cons rfl) heq
  obtain ⟨hvalue, hxy⟩ := hv hp.2 hq.2 hx hy (List.cons.inj hrest).2
  exact ⟨⟨hkey, hvalue⟩, hxy⟩

/-- A list with separators, up to a closing letter. -/
theorem Readable.list {sep close : β} (h : Readable P R stop enc) (hsep : stop sep)
    (hclose : stop close) (hne : sep ≠ close)
    (hhead : ∀ a, P a → ∃ c rest, enc a = c :: rest ∧ c ≠ close) :
    Readable (fun l : List α => ∀ a ∈ l, P a) (List.Forall₂ R) (fun _ => True)
      fun l => [sep].intercalate (l.map enc) ++ [close] := by
  -- a list that is not empty does not begin with the closing letter
  have hopen : ∀ (a : α) (l : List α) (x y : List β), P a →
      [sep].intercalate ((a :: l).map enc) ++ [close] ++ x ≠ close :: y := by
    intro a l x y ha heq
    obtain ⟨c, rest, hc, hcne⟩ := hhead a ha
    cases l with
    | nil =>
      simp only [List.map_cons, List.map_nil, List.intercalate_singleton, hc, List.cons_append] at heq
      exact hcne (List.cons.inj heq).1
    | cons b l =>
      simp only [List.map_cons, List.intercalate_cons_cons, hc, List.cons_append] at heq
      exact hcne (List.cons.inj heq).1
  intro l l' hl hl' x y _ _ heq
  induction l generalizing l' with
  | nil =>
    cases l' with
    | nil => exact ⟨.nil, (List.cons.inj heq).2⟩
    | cons b l' => exact absurd heq.symm (hopen b l' y x (hl' b (List.mem_cons_self ..)))
  | cons a l ih =>
    have ha := hl a (List.mem_cons_self ..)
    cases l' with
    | nil => exact absurd heq (hopen a l x y ha)
    | cons b l' =>
      have hb := hl' b (List.mem_cons_self ..)
      cases l with
      | nil =>
        cases l' with
        | nil =>
          simp only [List.map_cons, List.map_nil, List.intercalate_singleton, List.append_assoc] at heq
          obtain ⟨hab, hrest⟩ := h ha hb (ends_cons hclose) (ends_cons hclose) heq
          exact ⟨.cons hab .nil, (List.cons.inj hrest).2⟩
        | cons d l' =>
          simp only [List.map_cons, List.map_nil, List.intercalate_singleton, List.intercalate_cons_cons,
            List.append_assoc] at heq
          obtain ⟨-, hrest⟩ := h ha hb (ends_cons hclose) (ends_cons hsep) heq
          exact absurd (List.cons.inj hrest).1.symm hne
      | cons c l =>
        cases l' with
        | nil =>
          simp only [List.map_cons, List.map_nil, List.intercalate_singleton, List.intercalate_cons_cons,
            List.append_assoc] at heq
          obtain ⟨-, hrest⟩ := h ha hb (ends_cons hsep) (ends_cons hclose) heq
          exact absurd (List.cons.inj hrest).1 hne
        | cons d l' =>
          have hsplit : enc a ++ ([sep] ++ ([sep].intercalate ((c :: l).map enc) ++ [close] ++ x)) =
              enc b ++ ([sep] ++ ([sep].intercalate ((d :: l').map enc) ++ [close] ++ y)) := by
            simpa only [List.map_cons, List.intercalate_cons_cons, List.append_assoc] using heq
          obtain ⟨hab, hrest⟩ := h ha hb (ends_cons hsep) (ends_cons hsep) hsplit
          obtain ⟨htail, hxy⟩ := ih (fun e he => hl e (List.mem_cons_of_mem _ he))
            (fun e he => hl' e (List.mem_cons_of_mem _ he)) (List.cons.inj hrest).2
          exact ⟨.cons hab htail, hxy⟩

end Readable

end Words
