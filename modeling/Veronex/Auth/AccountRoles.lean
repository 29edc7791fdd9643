import Mathlib.Algebra.Order.Group.Nat
import Veronex.Auth.RoleRuns

/-! # Accounts and the roles they are left with

`live_accounts_have_roles`: a live account keeps a role as long as none is given out between the count
of `delete_role` and its `DELETE`.
`setups_bounded`: the first-run setup succeeds at most once more than accounts are deleted.
-/
namespace Veronex.Rbac
open Concurrency
set_option autoImplicit false

/-! ## Roles that are given out -/

def Effect.assigns : Effect → List Uuid
  | .insertAccount _ roleIds => roleIds
  | .commitSetup _ roleId => [roleId]
  | .setRoles _ _ roleIds => roleIds
  | _ => []

/-- No statement gives out a role that a `delete_role` has counted and not yet deleted. -/
def Settled (w : World) : Action → Prop
  | .run k choice => ∀ t, w.tasks[k]? = some t →
      ∀ e t', t.step w.db w.setupLock.isNone choice = some (e, t') →
        ∀ rid ∈ e.assigns, Task.deleteRoleDelete rid ∉ w.tasks
  | _ => True

def Db.Unheld (db : Db) (rid : Uuid) : Prop :=
  ∀ a ∈ db.accounts, a.deleted = false → db.assigned a.id rid = false

def Db.Served (db : Db) : Prop := ∀ a ∈ db.accounts, a.deleted = false → db.rolesOf a.id ≠ []

section Effects
variable {db : Db} {e : Effect} {rid : Uuid}

theorem Db.unheld_of_count (h : ¬ 0 < (db.holders rid).length) : db.Unheld rid := by
  intro a ha hlive
  by_contra hassigned
  refine h (List.length_pos_of_mem (a := a) ?_)
  rw [Bool.not_eq_false] at hassigned
  exact List.mem_filter.mpr ⟨ha, by simp [hlive, hassigned]⟩

theorem Db.ne_nil_iff {aid : Uuid} :
    db.rolesOf aid ≠ [] ↔ ∃ r ∈ db.roles, db.assigned aid r.id = true := by
  constructor
  · intro h
    obtain ⟨r, hr⟩ := List.exists_mem_of_ne_nil _ h
    exact ⟨r, Db.mem_rolesOf.mp hr⟩
  · rintro ⟨r, hr⟩
    exact List.ne_nil_of_mem (Db.mem_rolesOf.mpr hr)

theorem Db.updateAccount_live {aid : Uuid} {f : Account → Account} {a : Account}
    (ha : a ∈ (db.updateAccount aid f).accounts) (hlive : a.deleted = false)
    (hid : ∀ b, (f b).id = b.id) (hkeep : ∀ b, (f b).deleted = false → b.deleted = false) :
    ∃ b ∈ db.accounts, b.deleted = false ∧ b.id = a.id := by
  obtain ⟨b, hb, rfl⟩ := List.mem_map.mp ha
  by_cases h : b.id = aid
  · rw [if_pos h] at hlive ⊢
    exact ⟨b, hb, hkeep b hlive, (hid b).symm⟩
  · rw [if_neg h] at hlive ⊢
    exact ⟨b, hb, hlive, rfl⟩

/-- An account that a statement leaves live was live before, or is the one it inserts. -/
theorem Db.apply_live {a : Account} (ha : a ∈ (db.apply e).accounts) (hlive : a.deleted = false) :
    (∃ b ∈ db.accounts, b.deleted = false ∧ b.id = a.id) ∨
      (∃ roleIds, e = .insertAccount a roleIds) ∨ ∃ roleId, e = .commitSetup a roleId := by
  cases e with
  | insertAccount account roleIds =>
    simp only [Db.apply, Db.insertAccount, Db.assign_accounts, List.mem_append, List.mem_singleton] at ha
    rcases ha with ha | rfl
    · exact Or.inl ⟨a, ha, hlive, rfl⟩
    · exact Or.inr (Or.inl ⟨roleIds, rfl⟩)
  | commitSetup account roleId =>
    simp only [Db.apply, Db.insertAccount, Db.assign_accounts, List.mem_append, List.mem_singleton] at ha
    rcases ha with ha | rfl
    · exact Or.inl ⟨a, ha, hlive, rfl⟩
    · exact Or.inr (Or.inr ⟨roleId, rfl⟩)
  | updateProfile account => exact Or.inl (Db.updateAccount_live ha hlive (fun _ => rfl) fun _ h => h)
  | softDelete aid =>
    exact Or.inl (Db.updateAccount_live ha hlive (fun _ => rfl) fun _ h => absurd h Bool.noConfusion)
  | setActive aid active => exact Or.inl (Db.updateAccount_live ha hlive (fun _ => rfl) fun _ h => h)
  | setRoles aid seen roleIds =>
    simp only [Db.apply, Db.assign_accounts] at ha
    exact Or.inl ⟨a, ha, hlive, rfl⟩
  | _ => exact Or.inl ⟨a, ha, hlive, rfl⟩

/-- An account gets a role by a statement that gives it out. -/
theorem Db.apply_assigned {aid : Uuid} (h : (db.apply e).assigned aid rid = true) :
    db.assigned aid rid = true ∨ rid ∈ e.assigns := by
  cases e with
  | insertAccount account roleIds =>
    rcases (Db.assign_assigned _ _).mp h with h | h
    · exact Or.inl h
    · exact Or.inr h.2
  | commitSetup account roleId =>
    rcases (Db.assign_assigned _ _).mp h with h | h
    · exact Or.inl h
    · exact Or.inr h.2
  | setRoles bid seen roleIds =>
    rcases (Db.assign_assigned _ _).mp h with h | h
    · exact Or.inl (Db.unassign_assigned h)
    · exact Or.inr h.2
  | deleteRole other =>
    obtain ⟨x, hx, hkey⟩ := Db.assigned_iff.mp h
    exact Or.inl (Db.assigned_iff.mpr ⟨x, List.mem_of_mem_filter hx, hkey⟩)
  | _ => exact Or.inl h

theorem Db.Sound.assigned_lt (h : db.Sound) {aid : Uuid} (ha : db.assigned aid rid = true) :
    aid < db.nextId := by
  obtain ⟨x, hx, hxa, -⟩ := Db.assigned_iff.mp ha
  obtain ⟨b, hb, hbx⟩ := h.accountKey x hx
  have hlt := h.accountIdsLt b hb
  rwa [hbx, hxa] at hlt

theorem Db.Unheld.apply (h : db.Unheld rid) (hdb : db.Sound) (hok : e.Ok db) (hrid : rid ∉ e.assigns) :
    (db.apply e).Unheld rid := by
  intro a ha hlive
  by_contra hassigned
  rw [Bool.not_eq_false] at hassigned
  have hold := (Db.apply_assigned hassigned).resolve_right hrid
  have hlt := hdb.assigned_lt hold
  rcases Db.apply_live ha hlive with ⟨b, hb, hblive, hid⟩ | ⟨roleIds, rfl⟩ | ⟨roleId, rfl⟩
  · rw [← hid, h b hb hblive] at hold
    cases hold
  · rw [hok.1] at hlt
    exact Nat.lt_irrefl _ hlt
  · rw [hok.1] at hlt
    exact Nat.lt_irrefl _ hlt

theorem Db.apply_roles_mem {r : Role} (hr : r ∈ db.roles) (hne : ∀ gone, e = .deleteRole gone → r.id ≠ gone) :
    ∃ r' ∈ (db.apply e).roles, r'.id = r.id := by
  cases e with
  | insertRole name permissions => exact ⟨r, List.mem_append_left _ hr, rfl⟩
  | updateRole other name permissions =>
    refine ⟨_, List.mem_map_of_mem hr, ?_⟩
    split <;> rfl
  | deleteRole gone => exact ⟨r, List.mem_filter.mpr ⟨hr, decide_eq_true (hne gone rfl)⟩, rfl⟩
  | insertAccount account roleIds => exact ⟨r, by simpa [Db.apply, Db.insertAccount] using hr, rfl⟩
  | commitSetup account roleId => exact ⟨r, by simpa [Db.apply, Db.insertAccount] using hr, rfl⟩
  | setRoles aid seen roleIds => exact ⟨r, by simpa [Db.apply, Db.unassign] using hr, rfl⟩
  | _ => exact ⟨r, hr, rfl⟩

/-- A row of `account_roles` goes with its role, or when the roles of its account are set. -/
theorem Db.apply_keeps {aid : Uuid} (h : db.assigned aid rid = true)
    (hgone : e ≠ .deleteRole rid) (hset : ∀ seen roleIds, e ≠ .setRoles aid seen roleIds) :
    (db.apply e).assigned aid rid = true := by
  cases e with
  | deleteRole gone =>
    obtain ⟨x, hx, hxa, hxr⟩ := Db.assigned_iff.mp h
    refine Db.assigned_iff.mpr ⟨x, List.mem_filter.mpr ⟨hx, decide_eq_true ?_⟩, hxa, hxr⟩
    rw [hxr]
    exact fun heq => hgone (by rw [heq])
  | insertAccount account roleIds => exact (Db.assign_assigned _ _).mpr (Or.inl h)
  | commitSetup account roleId => exact (Db.assign_assigned _ _).mpr (Or.inl h)
  | setRoles bid seen roleIds =>
    have hne : aid ≠ bid := fun heq => hset seen roleIds (by rw [heq])
    exact (Db.assign_assigned _ _).mpr (Or.inl (Db.unassign_others hne h))
  | _ => exact h

theorem Db.served_of_assigned {aid : Uuid} {roleIds : List Uuid} (hne : roleIds ≠ [])
    (hexist : db.rolesExist roleIds = true) {base : Db} (hroles : base.roles = db.roles) :
    (Db.assign aid roleIds base).rolesOf aid ≠ [] := by
  obtain ⟨rid, hrid⟩ := List.exists_mem_of_ne_nil _ hne
  obtain ⟨r, hr, hid⟩ := Db.rolesExist_iff.mp hexist rid hrid
  refine Db.ne_nil_iff.mpr ⟨r, ?_, (Db.assign_assigned _ _).mpr (Or.inr ⟨rfl, hid ▸ hrid⟩)⟩
  rwa [Db.assign_roles, hroles]

theorem Db.Served.apply (h : db.Served) (hok : e.Ok db)
    (hdelete : ∀ gone, e = .deleteRole gone → db.Unheld gone) : (db.apply e).Served := by
  intro a ha hlive
  rcases Db.apply_live ha hlive with ⟨b, hb, hblive, hid⟩ | ⟨roleIds, rfl⟩ | ⟨roleId, rfl⟩
  · by_cases hset : ∃ seen roleIds, e = .setRoles a.id seen roleIds
    · obtain ⟨seen, roleIds, rfl⟩ := hset
      exact Db.served_of_assigned hok.2.2 hok.2.1 rfl
    · have hset' : ∀ seen roleIds, e ≠ .setRoles a.id seen roleIds := by
        intro seen roleIds heq
        exact hset ⟨seen, roleIds, heq⟩
      have hserved := h b hb hblive
      rw [hid] at hserved
      obtain ⟨r, hr, hassigned⟩ := Db.ne_nil_iff.mp hserved
      have hkept : ∀ gone, e = .deleteRole gone → r.id ≠ gone := by
        intro gone hgone heq
        have hun := hdelete gone hgone b hb hblive
        rw [hid, ← heq, hassigned] at hun
        cases hun
      obtain ⟨r', hr', hrid⟩ := Db.apply_roles_mem hr hkept
      refine Db.ne_nil_iff.mpr ⟨r', hr', ?_⟩
      rw [hrid]
      exact Db.apply_keeps hassigned (fun heq => hkept _ heq rfl) hset'
  · exact Db.served_of_assigned hok.2.2.2.2 hok.2.2.2.1 rfl
  · exact Db.served_of_assigned (List.cons_ne_nil _ _) hok.2.2.2 rfl

end Effects

/-! ## Which statement does what -/

section Statements
variable {db : Db} {e : Effect} {t t' : Task} {lockFree : Bool} {choice : Choice}

def Task.InSetup : Task → Prop
  | .setupCount _ | .setupRole _ | .setupInsert _ _ => True
  | _ => False

/-- The setup has found that no account is live. -/
def Task.Decided : Task → Prop
  | .setupRole _ | .setupInsert _ _ => True
  | _ => False

def Task.Bootstraps : Task → Prop
  | .bootstrapLookup _ | .bootstrapRole _ | .bootstrapInsert _ _ => True
  | _ => False

/-- Which calls delete a role, insert an account or take the lock of the setup, and what they have
seen before. -/
structure Task.Effects (db : Db) (t : Task) (lockFree : Bool) (e : Effect) (t' : Task) : Prop where
  counted : ∀ rid, t' = .deleteRoleDelete rid → db.Unheld rid
  deletes : ∀ rid, e = .deleteRole rid → t = .deleteRoleDelete rid
  inserts : ∀ account roleIds, e = .insertAccount account roleIds → ¬ t.Bootstraps →
    account.createdBy ≠ none
  commits : ∀ account roleId, e = .commitSetup account roleId → t.Decided ∧ ¬ t'.InSetup
  locks : e = .lock → lockFree = true
  unlocks : e = .unlock → t.InSetup ∧ ¬ t'.InSetup
  setup : t'.InSetup → e = .lock ∨ t.InSetup
  decided : t'.Decided → t.Decided ∨ ∀ a ∈ db.accounts, a.deleted = true
  boots : t'.Bootstraps → t.Bootstraps

theorem Task.Effects.of_finished {result : Except AppError Unit} (h : t' = .finished result)
    (he : e = .read ∨ e = .unlock ∧ t.InSetup) : Task.Effects db t lockFree e t' := by
  subst h
  rcases he with rfl | ⟨rfl, ht⟩
  · constructor <;> intros <;> simp_all [Task.InSetup, Task.Decided, Task.Bootstraps]
  · constructor <;> intros <;> simp_all [Task.InSetup, Task.Decided, Task.Bootstraps]

theorem Task.effects_of_answered (h : t.answered db lockFree choice = some (e, t')) :
    Task.Effects db t lockFree e t' := by
  cases t with
  | deleteRoleCount rid name =>
    simp only [Task.answered, finishWith] at h
    split at h
    · cases h
      exact Task.Effects.of_finished rfl (Or.inl rfl)
    · next hcount =>
      cases h
      constructor <;> intros <;> simp_all [Task.InSetup, Task.Decided, Task.Bootstraps]
      exact Db.unheld_of_count (by simpa using hcount)
  | setupCount username =>
    simp only [Task.answered] at h
    split at h
    · cases h
      exact Task.Effects.of_finished rfl (Or.inr ⟨rfl, trivial⟩)
    · next hnone =>
      cases h
      constructor <;> intros <;> simp_all [Task.InSetup, Task.Decided, Task.Bootstraps]
  | createAccountInsert creator req roleIds =>
    simp only [Task.answered, finishWith] at h
    split at h
    · cases h
      exact Task.Effects.of_finished rfl (Or.inl rfl)
    · cases h
      constructor <;> intros <;> simp_all [Task.InSetup, Task.Decided, Task.Bootstraps]
      next heq =>
        rw [← heq.1]
        exact Option.some_ne_none _
  | _ =>
    simp only [Task.answered, finishWith] at h
    repeat' split at h
    all_goals cases h
    all_goals constructor <;> intros <;> simp_all [Task.InSetup, Task.Decided, Task.Bootstraps]

theorem Task.failed_unlocks (h : t.failed = .unlock) : t.InSetup := by
  cases t <;> trivial

theorem Task.effects_of_step (h : t.step db lockFree choice = some (e, t')) :
    Task.Effects db t lockFree e t' := by
  rcases Task.step_cases h with ⟨-, rfl, rfl⟩ | ⟨-, h⟩
  · refine Task.Effects.of_finished rfl ?_
    rcases t.failed_cases with hf | hf
    · exact Or.inl hf
    · exact Or.inr ⟨hf, Task.failed_unlocks hf⟩
  · exact Task.effects_of_answered h

/-- A call that starts has seen nothing. -/
theorem Request.start_fresh (claims : Option Claims) (req : Request) :
    (∀ rid, req.start claims ≠ .deleteRoleDelete rid) ∧ ¬ (req.start claims).InSetup ∧
      ¬ (req.start claims).Decided ∧ ¬ (req.start claims).Bootstraps := by
  cases req <;> simp only [Request.start, reject] <;> repeat' split
  all_goals simp [Task.InSetup, Task.Decided, Task.Bootstraps]

end Statements

/-! ## Every live account has a role -/

structure KeepsRoles (w : World) : Prop where
  served : w.db.Served
  counted : ∀ rid, Task.deleteRoleDelete rid ∈ w.tasks → w.db.Unheld rid

theorem KeepsRoles.step {w w' : World} {a : Action} (hsound : w.Sound) (h : KeepsRoles w)
    (hok : Settled w a) (hs : w.step a = some w') : KeepsRoles w' := by
  cases World.step_moved hs with
  | started claims req _ =>
    refine ⟨h.served, fun rid hrid => ?_⟩
    rcases World.mem_of_append hrid with hrid | hrid
    · exact h.counted rid hrid
    · exact absurd hrid.symm ((Request.start_fresh claims req).1 rid)
  | boot user =>
    refine ⟨h.served, fun rid hrid => ?_⟩
    rcases World.mem_of_append hrid with hrid | hrid
    · exact h.counted rid hrid
    · cases hrid
  | ran k choice t t' e ht hstep =>
    obtain ⟨heffect, -⟩ := Task.step_sound hsound.db (hsound.tasks t (List.mem_of_getElem? ht)) hstep
    have hwhich := Task.effects_of_step hstep
    have hfree : ∀ rid, Task.deleteRoleDelete rid ∈ w.tasks → rid ∉ e.assigns := by
      intro rid hrid hassign
      exact hok t ht e t' hstep rid hassign hrid
    refine ⟨h.served.apply heffect fun gone hgone => ?_, fun rid hrid => ?_⟩
    · have htask := hwhich.deletes gone hgone
      exact h.counted gone (htask ▸ List.mem_of_getElem? ht)
    · rcases World.mem_of_set hrid with hrid | rfl
      · exact (h.counted rid hrid).apply hsound.db heffect (hfree rid hrid)
      · -- the statement was the count, which writes nothing
        have hun := hwhich.counted rid rfl
        refine hun.apply hsound.db heffect ?_
        intro hassign
        have hread : e.assigns = [] := by
          cases t with
          | deleteRoleCount other name =>
            rcases Task.step_cases hstep with ⟨-, he, -⟩ | ⟨-, hanswer⟩
            · rw [he]
              rfl
            · simp only [Task.answered, finishWith] at hanswer
              split at hanswer <;> cases hanswer
              rfl
          | _ =>
            exfalso
            rcases Task.step_cases hstep with ⟨-, -, hnext⟩ | ⟨-, hanswer⟩
            · cases hnext
            · simp only [Task.answered, finishWith] at hanswer
              repeat' split at hanswer
              all_goals cases hanswer
        rw [hread] at hassign
        cases hassign

/-- As long as no role is given out between the count of `delete_role` and its `DELETE`, every account
that is not deleted has a role, and signing in to it gives a token. -/
theorem live_accounts_have_roles {w : World} (h : Run World.step Settled World.init w) :
    ∀ a ∈ w.db.accounts, a.deleted = false → w.db.rolesOf a.id ≠ [] ∧
      ∀ lockFree choice e t', choice.fails = false →
        (Task.signIn a.id).step w.db lockFree choice = some (e, t') →
          ∃ c, e = .issue c ∧ c.sub = a.id := by
  have hinit : KeepsRoles World.init := by
    constructor
    · simp [Db.Served, World.init, Db.seeded]
    · simp [World.init]
  have hkeeps : KeepsRoles w := by
    refine h.invariant hinit fun x y a hrun hx hok hs => ?_
    exact hx.step (World.sound_of_run hrun) hok hs
  intro a ha hlive
  have hne := hkeeps.served a ha hlive
  refine ⟨hne, fun lockFree choice e t' hanswered hstep => ?_⟩
  rcases Task.step_cases hstep with ⟨hfails, -, -⟩ | ⟨-, hstep⟩
  · rw [hanswered] at hfails
    cases hfails
  · simp only [Task.answered, finishWith] at hstep
    split at hstep
    · next hrows =>
      have hlength := (Db.joinAnswers_cases hrows).2.2
      have hpos : 0 < (w.db.rolesOf a.id).length := List.length_pos_iff.mpr hne
      have hrows' : choice.rows ≠ [] := by
        intro hnil
        rw [hnil, List.length_nil] at hlength
        omega
      split at hstep
      · next err herr =>
        have hempty : choice.rows.isEmpty = false := by simpa using hrows'
        simp [resolveRoles, hempty] at herr
      · next resolved _ =>
        cases hstep
        exact ⟨_, rfl, rfl⟩
    · cases hstep

def Task.isDelete : Task → Bool
  | .deleteRoleDelete _ => true
  | _ => false

def noneDeleted (w : World) (_ : Action) : Bool := w.tasks.all fun t => !t.isDelete

theorem settled_of_noneDeleted {w : World} {a : Action} (h : noneDeleted w a = true) : Settled w a := by
  cases a with
  | run k choice =>
    intro t _ e t' _ rid _ hmem
    have hall := List.all_eq_true.mp h _ hmem
    cases hall
  | _ => trivial

theorem roles_of_alice : ∃ w, Run World.step Settled World.init w ∧
    ∀ a ∈ w.db.accounts, a.deleted = false → w.db.rolesOf a.id ≠ [] := by
  have hexec : ((exec World.step noneDeleted World.init aliceActs).any fun w =>
      decide (w.issued.map Claims.sub = [3, 2])) = true := by
    decide +kernel
  obtain ⟨w, hrun, -⟩ := Run.exists_of_exec (fun _ _ h => settled_of_noneDeleted h) hexec
  exact ⟨w, hrun, fun a ha hlive => (live_accounts_have_roles hrun a ha hlive).1⟩

/-! ## The first-run setup -/

def Db.founded (db : Db) : ℕ := db.accounts.countP fun a => a.createdBy.isNone

def Db.deletedCount (db : Db) : ℕ := db.accounts.countP fun a => a.deleted

def NoBootstrap (_ : World) : Action → Prop
  | .bootstrap _ => False
  | _ => True

section Setup
variable {db : Db} {e : Effect}

theorem Db.updateAccount_founded (aid : Uuid) {f : Account → Account}
    (hf : ∀ a, (f a).createdBy = a.createdBy) : (db.updateAccount aid f).founded = db.founded := by
  simp only [Db.founded, Db.updateAccount, List.countP_map]
  refine List.countP_congr fun a _ => ?_
  simp only [Function.comp]
  split
  · rw [hf]
  · rfl

theorem Db.updateAccount_deletedCount (aid : Uuid) {f : Account → Account}
    (hf : ∀ a, a.deleted = true → (f a).deleted = true) :
    db.deletedCount ≤ (db.updateAccount aid f).deletedCount := by
  simp only [Db.deletedCount, Db.updateAccount, List.countP_map]
  refine List.countP_mono_left fun a _ ha => ?_
  simp only [Function.comp]
  split
  · exact hf a ha
  · exact ha

theorem Db.deletedCount_apply : db.deletedCount ≤ (db.apply e).deletedCount := by
  cases e with
  | updateProfile account => exact Db.updateAccount_deletedCount _ fun _ h => h
  | softDelete aid => exact Db.updateAccount_deletedCount _ fun _ _ => rfl
  | setActive aid active => exact Db.updateAccount_deletedCount _ fun _ h => h
  | insertAccount account roleIds =>
    simp [Db.deletedCount, Db.apply, Db.insertAccount, List.countP_append]
  | commitSetup account roleId =>
    simp [Db.deletedCount, Db.apply, Db.insertAccount, List.countP_append]
  | setRoles aid seen roleIds =>
    simp [Db.deletedCount, Db.apply, Db.unassign]
  | _ => exact Nat.le_refl _

def Effect.founds : Effect → ℕ
  | .commitSetup _ _ => 1
  | _ => 0

theorem Effect.founds_eq_zero (h : ∀ a r, e ≠ .commitSetup a r) : e.founds = 0 := by
  cases e with
  | commitSetup a r => exact absurd rfl (h a r)
  | _ => rfl

theorem Db.founded_apply (db : Db) (hinsert : ∀ account roleIds, e = .insertAccount account roleIds →
    account.createdBy ≠ none) :
    (db.apply e).founded ≤ db.founded + e.founds := by
  cases e with
  | updateProfile account => exact Nat.le_of_eq (Db.updateAccount_founded _ fun _ => rfl)
  | softDelete aid => exact Nat.le_of_eq (Db.updateAccount_founded _ fun _ => rfl)
  | setActive aid active => exact Nat.le_of_eq (Db.updateAccount_founded _ fun _ => rfl)
  | insertAccount account roleIds =>
    have hsome : account.createdBy.isNone = false := by
      have hne := hinsert account roleIds rfl
      exact Option.isNone_eq_false_iff.mpr (Option.isSome_iff_ne_none.mpr hne)
    simp [Db.founded, Db.apply, Db.insertAccount, List.countP_append, hsome]
  | commitSetup account roleId =>
    have hone : [account].countP (fun a => a.createdBy.isNone) ≤ 1 := List.countP_le_length
    simp only [Db.founded, Db.apply, Db.insertAccount, Db.assign_accounts, List.countP_append,
      Effect.founds]
    omega
  | setRoles aid seen roleIds => simp [Db.founded, Db.apply, Db.unassign]
  | _ => exact Nat.le_refl _

/-- Without a live account there are no more founders than deleted accounts. -/
theorem Db.founded_le (h : ∀ a ∈ db.accounts, a.deleted = true) : db.founded ≤ db.deletedCount := by
  have hall : db.deletedCount = db.accounts.length := List.countP_eq_length.mpr h
  rw [hall]
  exact List.countP_le_length

end Setup

/-- A call in the setup holds the lock, and while it has found no live account, none was founded that
is not deleted. -/
structure Founding (w : World) : Prop where
  bound : w.db.founded ≤ w.db.deletedCount + 1
  noBoot : ∀ t ∈ w.tasks, ¬ t.Bootstraps
  holder : ∀ k t, w.tasks[k]? = some t → t.InSetup → w.setupLock = some k
  decided : ∀ t ∈ w.tasks, t.Decided → w.db.founded ≤ w.db.deletedCount

theorem Task.Decided.inSetup {t : Task} (h : t.Decided) : t.InSetup := by
  cases t <;> trivial

theorem Founding.appended {w : World} (h : Founding w) {t : Task} (hsetup : ¬ t.InSetup)
    (hboot : ¬ t.Bootstraps) : Founding { w with tasks := w.tasks ++ [t] } where
  bound := h.bound
  noBoot := by
    intro u hu
    rcases World.mem_of_append hu with hu | rfl
    · exact h.noBoot u hu
    · exact hboot
  holder := by
    intro k u hu hin
    rcases World.mem_of_append (List.mem_of_getElem? hu) with _ | rfl
    · rw [List.getElem?_append] at hu
      split at hu
      · exact h.holder k u hu hin
      · have hmem := List.mem_of_getElem? hu
        rw [List.mem_singleton] at hmem
        exact absurd (hmem ▸ hin) hsetup
    · exact absurd hin hsetup
  decided := by
    intro u hu hdecided
    rcases World.mem_of_append hu with hu | rfl
    · exact h.decided u hu hdecided
    · exact absurd hdecided.inSetup hsetup

theorem World.apply_lock {w : World} {k : ℕ} {e : Effect} :
    (w.apply k e).setupLock = w.setupLock ∨ (w.apply k e).setupLock = some k ∧ e = .lock ∨
      (w.apply k e).setupLock = none ∧ (e = .unlock ∨ ∃ a r, e = .commitSetup a r) := by
  cases e with
  | lock => exact Or.inr (Or.inl ⟨rfl, rfl⟩)
  | unlock => exact Or.inr (Or.inr ⟨rfl, Or.inl rfl⟩)
  | commitSetup a r => exact Or.inr (Or.inr ⟨rfl, Or.inr ⟨a, r, rfl⟩⟩)
  | _ => exact Or.inl rfl

theorem Founding.ran {w : World} (h : Founding w) {k : ℕ} {choice : Choice} {t t' : Task} {e : Effect}
    (ht : w.tasks[k]? = some t) (hstep : t.step w.db w.setupLock.isNone choice = some (e, t')) :
    Founding { w.apply k e with tasks := w.tasks.set k t' } := by
  have hwhich := Task.effects_of_step hstep
  have hmem := List.mem_of_getElem? ht
  have hdeleted : w.db.deletedCount ≤ (w.db.apply e).deletedCount := Db.deletedCount_apply
  have hfounded := Db.founded_apply w.db fun account roleIds he =>
    hwhich.inserts account roleIds he (h.noBoot t hmem)
  -- another task in the setup would hold the lock that this one holds
  have hothers : ∀ l u, l ≠ k → w.tasks[l]? = some u → u.InSetup → ¬ t.InSetup ∧ e ≠ .lock := by
    intro l u hl hu hin
    have hlock := h.holder l u hu hin
    refine ⟨fun htin => ?_, fun he => ?_⟩
    · have hlock' := h.holder k t ht htin
      rw [hlock] at hlock'
      exact hl (Option.some.inj hlock')
    · have hfree := hwhich.locks he
      rw [hlock] at hfree
      cases hfree
  have hset : ∀ l u, (w.tasks.set k t')[l]? = some u → (l = k ∧ u = t') ∨ (l ≠ k ∧ w.tasks[l]? = some u) := by
    intro l u hu
    rw [List.getElem?_set] at hu
    split at hu
    · next hkl =>
      split at hu
      · cases hu
        exact Or.inl ⟨hkl.symm, rfl⟩
      · cases hu
    · next hkl => exact Or.inr ⟨fun hlk => hkl hlk.symm, hu⟩
  refine ⟨?_, ?_, ?_, ?_⟩
  · show (w.db.apply e).founded ≤ (w.db.apply e).deletedCount + 1
    have hbound := h.bound
    by_cases hcommit : ∃ a r, e = .commitSetup a r
    · obtain ⟨a, r, rfl⟩ := hcommit
      have hdec := h.decided t hmem (hwhich.commits a r rfl).1
      have hone : (Effect.commitSetup a r).founds = 1 := rfl
      omega
    · have hzero := Effect.founds_eq_zero fun a r he => hcommit ⟨a, r, he⟩
      omega
  · intro u hu
    rcases World.mem_of_set hu with hu | rfl
    · exact h.noBoot u hu
    · exact fun hboot => h.noBoot t hmem (hwhich.boots hboot)
  · intro l u hu hin
    rcases hset l u hu with ⟨rfl, rfl⟩ | ⟨hl, hold⟩
    · rcases World.apply_lock (w := w) (k := l) (e := e) with hlock | ⟨hlock, -⟩ | ⟨-, he | ⟨a, r, he⟩⟩
      · rcases hwhich.setup hin with rfl | htin
        · rfl
        · exact hlock.trans (h.holder l t ht htin)
      · exact hlock
      · exact absurd hin (hwhich.unlocks he).2
      · exact absurd hin (hwhich.commits a r he).2
    · obtain ⟨hnot, hnolock⟩ := hothers l u hl hold hin
      rcases World.apply_lock (w := w) (k := k) (e := e) with hlock | ⟨-, he⟩ | ⟨-, he | ⟨a, r, he⟩⟩
      · exact hlock.trans (h.holder l u hold hin)
      · exact absurd he hnolock
      · exact absurd (hwhich.unlocks he).1 hnot
      · exact absurd (hwhich.commits a r he).1.inSetup hnot
  · intro u hu hdecided
    show (w.db.apply e).founded ≤ (w.db.apply e).deletedCount
    obtain ⟨l, hl⟩ := List.getElem?_of_mem hu
    have hnocommit : ∀ a r, e ≠ .commitSetup a r := by
      intro a r he
      rcases hset l u hl with ⟨-, rfl⟩ | ⟨hne, hold⟩
      · exact (hwhich.commits a r he).2 hdecided.inSetup
      · exact (hothers l u hne hold hdecided.inSetup).1 (hwhich.commits a r he).1.inSetup
    have hzero := Effect.founds_eq_zero hnocommit
    have hbefore : w.db.founded ≤ w.db.deletedCount := by
      rcases hset l u hl with ⟨-, rfl⟩ | ⟨-, hold⟩
      · rcases hwhich.decided hdecided with htd | hnone
        · exact h.decided t hmem htd
        · exact Db.founded_le hnone
      · exact h.decided u (List.mem_of_getElem? hold) hdecided
    omega

/-- However many setups run at once, and with whatever else: they succeed at most once more than
accounts are deleted. -/
theorem setups_bounded {w : World} (h : Run World.step NoBootstrap World.init w) :
    w.db.founded ≤ w.db.deletedCount + 1 := by
  have hinit : Founding World.init := by
    constructor <;> simp [World.init, Db.seeded, Db.founded]
  have hfounding : Founding w := by
    refine h.invariant hinit fun x y a _ hx hok hs => ?_
    cases World.step_moved hs with
    | started claims req _ =>
      obtain ⟨-, hsetup, -, hboot⟩ := Request.start_fresh claims req
      exact hx.appended hsetup hboot
    | boot user => exact absurd hok id
    | ran k choice t t' e ht hstep => exact hx.ran ht hstep
  exact hfounding.bound

/-- Two setups at once; `root` is deleted, and a third one succeeds. -/
def setupActs : List Action :=
  [Action.request none (Request.setup "root" "correct horse"),
    Action.request none (Request.setup "other" "battery staple")] ++ statements 0 4 ++
    [Action.run 0 (answered [superRole])] ++ statements 1 2 ++
    [Action.request (some rootToken) (Request.deleteAccount 2)] ++ statements 2 2 ++
    [Action.request none (Request.setup "again" "battery staple")] ++ statements 3 4

def notBootstrap (_ : World) : Action → Bool
  | .bootstrap _ => false
  | _ => true

theorem setups_after_deletion : ∃ w, Run World.step NoBootstrap World.init w ∧ w.db.founded = 2 ∧
    w.db.founded ≤ w.db.deletedCount + 1 := by
  have hexec : ((exec World.step notBootstrap World.init setupActs).any fun w =>
      decide (w.db.founded = 2)) = true := by
    decide +kernel
  obtain ⟨w, hrun, hw⟩ := @Run.exists_of_exec _ _ _ _ NoBootstrap (by
    intro s a h
    cases a with
    | bootstrap user => cases h
    | _ => trivial) _ _ _ hexec
  exact ⟨w, hrun, of_decide_eq_true hw, setups_bounded hrun⟩

end Veronex.Rbac
