import Veronex.Auth.Sessions

/-! # Revoked access tokens

The marker of a revoked token is set with an `EX` of the whole seconds the session has left, and the
token is accepted up to the leeway after its `exp`. So a request gets through in the time between
the two, and on the way that takes a token as unrevoked when Valkey does not answer.
-/
namespace Veronex.Auth
open Concurrency
set_option autoImplicit false

namespace World
variable {w w' : World} {a : Action} {t : AccessToken} {s : Session} {via : Middleware}

/-- The markers are set for as long as the sessions of the tokens last. -/
structure Marked (w : World) : Prop where
  issued_lt : ∀ t ∈ w.issued, t.jti < w.nextUuid
  known_lt : ∀ s ∈ w.known, s.jti < w.nextUuid
  agree : ∀ t ∈ w.issued, ∀ s ∈ w.known, s.jti = t.jti → s.expiresAt = t.expiresAt
  marker : ∀ t ∈ w.issued, w.revokedJti t.jti =
    (w.revocations t.jti).map fun r => r + 1000 * ttlSecs t.expiresAt r
  unmarked : ∀ j, w.nextUuid ≤ j → w.revokedJti j = none ∧ w.revocations j = none

theorem marked_init (now : Millis) : (init now).Marked where
  issued_lt := by simp [init]
  known_lt := by simp [known, init]
  agree := by simp [init]
  marker := by simp [init]
  unmarked := by simp [init]

/-- Every token of the state after a step was issued before, or is the new one. -/
theorem step_issued_mem (h : w.step a = some w') (ht : t ∈ w'.issued) :
    t ∈ w.issued ∨ (t.jti = w.nextUuid ∧ w'.nextUuid = w.nextUuid + 1 ∧
      t.expiresAt = w.now + ACCESS_TOKEN_LIFETIME_MS) := by
  rcases step_issued h with ⟨hissued, -⟩ | ⟨accountId, permissions, lineage, hissued, hnext, -⟩
  · exact .inl (hissued ▸ ht)
  · rw [hissued] at ht
    rcases List.mem_append.mp ht with ht | ht
    · exact .inl ht
    · obtain rfl := List.mem_singleton.mp ht
      exact .inr ⟨rfl, hnext, rfl⟩

/-- Every session known after a step was known before, or is the one of the new token. -/
theorem step_known_mem (h : w.step a = some w') (hs : s ∈ w'.known) :
    s ∈ w.known ∨ (s.jti = w.nextUuid ∧ w'.nextUuid = w.nextUuid + 1 ∧
      s.expiresAt = w.now + ACCESS_TOKEN_LIFETIME_MS) := by
  rcases step_known h hs with hs | ⟨accountId, permissions, lineage, exchangedFor, rfl, -, hnext, -⟩
  · exact .inl hs
  · exact .inr ⟨rfl, hnext, rfl⟩

namespace Marked

theorem step_agree (hw : w.Marked) (h : w.step a = some w') (ht : t ∈ w'.issued)
    (hs : s ∈ w'.known) (hjti : s.jti = t.jti) : s.expiresAt = t.expiresAt := by
  rcases step_issued_mem h ht with ht | ⟨htjti, -, htexp⟩ <;>
    rcases step_known_mem h hs with hs | ⟨hsjti, -, hsexp⟩
  · exact hw.agree t ht s hs hjti
  · exact absurd (hjti.symm.trans hsjti) (Nat.ne_of_lt (hw.issued_lt t ht))
  · exact absurd (hjti.trans htjti) (Nat.ne_of_lt (hw.known_lt s hs))
  · rw [hsexp, htexp]

theorem step_marker (hw : w.Marked) (h : w.step a = some w') (ht : t ∈ w'.issued) :
    w'.revokedJti t.jti = (w'.revocations t.jti).map fun r => r + 1000 * ttlSecs t.expiresAt r := by
  have hold : w.revokedJti t.jti =
      (w.revocations t.jti).map fun r => r + 1000 * ttlSecs t.expiresAt r := by
    rcases step_issued_mem h ht with ht | ⟨hjti, -, -⟩
    · exact hw.marker t ht
    · obtain ⟨hkey, hghost⟩ := hw.unmarked t.jti (Nat.le_of_eq hjti.symm)
      rw [hkey, hghost, Option.map_none]
  rcases step_markers h with ⟨hkeys, hghost⟩ | ⟨s, hs, hkeys, hghost⟩
  · rw [hkeys, hghost, hold]
  · rw [hkeys, hghost]
    by_cases hjti : t.jti = s.jti
    · -- the marker of this very token: its session has its deadline
      have hexp : s.expiresAt = t.expiresAt := by
        rcases step_issued_mem h ht with ht | ⟨htjti, -, -⟩
        · exact hw.agree t ht s hs hjti.symm
        · exact absurd (hjti.symm.trans htjti) (Nat.ne_of_lt (hw.known_lt s hs))
      rw [hjti, Function.update_self, Function.update_self, hexp]
      rfl
    · rw [Function.update_of_ne hjti, Function.update_of_ne hjti, hold]

theorem step (hw : w.Marked) (h : w.step a = some w') : w'.Marked where
  issued_lt := by
    intro t ht
    have hle := step_nextUuid_le h
    rcases step_issued_mem h ht with ht | ⟨hjti, hnext, -⟩
    · exact (hw.issued_lt t ht).trans_le hle
    · rw [hjti, hnext]
      exact Nat.lt_succ_self _
  known_lt := by
    intro s hs
    have hle := step_nextUuid_le h
    rcases step_known_mem h hs with hs | ⟨hjti, hnext, -⟩
    · exact (hw.known_lt s hs).trans_le hle
    · rw [hjti, hnext]
      exact Nat.lt_succ_self _
  agree := fun t ht s hs hjti => hw.step_agree h ht hs hjti
  marker := fun t ht => hw.step_marker h ht
  unmarked := by
    intro j hj
    have hle := step_nextUuid_le h
    have hold := hw.unmarked j (hle.trans hj)
    rcases step_markers h with ⟨hkeys, hghost⟩ | ⟨s, hs, hkeys, hghost⟩
    · rwa [hkeys, hghost]
    · have hne : j ≠ s.jti := Nat.ne_of_gt ((hw.known_lt s hs).trans_le (hle.trans hj))
      rwa [hkeys, hghost, Function.update_of_ne hne, Function.update_of_ne hne]

end Marked

/-! ## Requests -/

/-- A request with a token that was revoked does not pass. -/
def Rejects (w : World) : Action → Prop
  | .request via i answered => ∀ t, w.issued[i]? = some t → (w.revocations t.jti).isSome →
      authenticate w t answered via ≠ .ok ()
  | _ => True

/-- A request with a revoked token comes while its marker lasts and Valkey answers, or when the token
is no longer accepted; without an answer it is stopped by `jwt_auth`, and without the permission by
`infer_auth`. -/
def covered (w : World) : Action → Bool
  | .request via i answered =>
    (w.issued[i]?).all fun t => (w.revocations t.jti).all fun r =>
      !decodes w.now t || (answered && w.now < r + 1000 * ttlSecs t.expiresAt r) ||
        match via with
        | .jwtAuth => !answered
        | .inferAuth => "api_test" ∉ t.permissions
  | _ => true

theorem authenticate_jwtAuth_ok {answered : Bool} : authenticate w t answered .jwtAuth = .ok () ↔
    decodes w.now t ∧ answered ∧ ¬ visible (w.revokedJti t.jti) w.now := by
  simp only [authenticate]
  cases decodes w.now t <;> cases answered <;> cases visible (w.revokedJti t.jti) w.now <;> simp

theorem authenticate_inferAuth_ok {answered : Bool} :
    authenticate w t answered .inferAuth = .ok () ↔
      decodes w.now t ∧ ¬ (answered ∧ visible (w.revokedJti t.jti) w.now) ∧
        "api_test" ∈ t.permissions := by
  simp only [authenticate]
  by_cases hmem : "api_test" ∈ t.permissions <;> cases decodes w.now t <;> cases answered <;>
    cases visible (w.revokedJti t.jti) w.now <;> simp [hmem]

theorem Marked.rejects_iff (hw : w.Marked) : w.Rejects a ↔ w.covered a = true := by
  cases a with
  | tick ms | start call | run k choice => simp [Rejects, covered]
  | request via i answered =>
    simp only [Rejects, covered]
    cases hi : w.issued[i]? with
    | none => simp
    | some t =>
      have hmarker := hw.marker t (List.mem_of_getElem? hi)
      cases hr : w.revocations t.jti with
      | none => simp [hr]
      | some r =>
        have hvisible : visible (w.revokedJti t.jti) w.now =
            decide (w.now < r + 1000 * ttlSecs t.expiresAt r) := by
          rw [hmarker, hr]
          rfl
        cases via with
        | jwtAuth =>
          simp only [Option.some.injEq, forall_eq', hr, Option.isSome_some, forall_const, ne_eq,
            authenticate_jwtAuth_ok, hvisible, Option.all_some]
          cases decodes w.now t <;> cases answered <;> simp
        | inferAuth =>
          simp only [Option.some.injEq, forall_eq', hr, Option.isSome_some, forall_const, ne_eq,
            authenticate_inferAuth_ok, hvisible, Option.all_some]
          by_cases hmem : "api_test" ∈ t.permissions <;> cases decodes w.now t <;>
            cases answered <;> simp [hmem]

/-- In a run no revoked token passes exactly when every request with one is covered. -/
theorem revoked_rejected_iff (now : Millis) (as : List Action) :
    EachStep World.step (fun w a _ => w.Rejects a) (init now) as ↔
      EachStep World.step (fun w a _ => w.covered a = true) (init now) as :=
  eachStep_congr_of (I := Marked) (fun _ _ _ hw h => hw.step h) (fun _ _ _ hw _ => hw.rejects_iff)
    (marked_init now) as

/-! ## A request within the leeway -/

/-- A login, a logout after a second, and the hour and half a second more. -/
def lateRequest : List Action :=
  let choice : Choice := { ok := true, permissions := [], next := 0 }
  [.start (.login 7), .run 0 choice, .run 0 choice, .tick 1000, .start (.logout 0), .run 1 choice,
    .run 1 choice, .run 1 choice, .tick 3599500]

theorem late_request_passes :
    ¬ ∀ now as, EachStep World.step (fun w a _ => w.Rejects a) (init now) as := by
  intro hall
  have hexec : (exec World.step (fun _ _ => true) (init 0) lateRequest).any (fun w =>
      (w.issued[0]?).any fun t => (w.revocations t.jti).isSome && decodes w.now t &&
        !visible (w.revokedJti t.jti) w.now) = true := by decide +kernel
  cases hrun : exec World.step (fun _ _ => true) (init 0) lateRequest with
  | none => simp [hrun] at hexec
  | some w =>
    rw [hrun, Option.any_some] at hexec
    cases hi : w.issued[0]? with
    | none => simp [hi] at hexec
    | some t =>
      obtain ⟨⟨hrevoked, hdecodes⟩, hgone⟩ : ((w.revocations t.jti).isSome = true ∧
          decodes w.now t = true) ∧ visible (w.revokedJti t.jti) w.now = false := by
        simpa [hi] using hexec
      have hstep : w.step (.request .jwtAuth 0 true) = some w := by simp [World.step, hi]
      refine EachStep.last (hall 0 _) hrun hstep t hi hrevoked ?_
      exact authenticate_jwtAuth_ok.mpr ⟨hdecodes, rfl, by simp [hgone]⟩

end World

end Veronex.Auth
