import Veronex.Auth.Roles

/-! # What the tables of roles and accounts keep

`Db.Sound` is what holds of the tables between any two statements, `Effect.Ok` what a statement must
bring with it, and `Task.Sound` what a call has checked by the statement it is at.
-/
namespace Veronex.Rbac
open Concurrency
set_option autoImplicit false

/-! ## Rows of `account_roles` -/

namespace Db
variable {db : Db} {aid bid rid : Uuid} {roleIds : List Uuid}

theorem assigned_iff : db.assigned aid rid = true ↔
    ∃ x ∈ db.accountRoles, x.accountId = aid ∧ x.roleId = rid := by
  simp [assigned]

theorem mem_rolesOf {r : Role} :
    r ∈ db.rolesOf aid ↔ r ∈ db.roles ∧ db.assigned aid r.id = true := by
  simp [rolesOf]

@[simp] theorem assign_roles : (assign aid roleIds db).roles = db.roles := by
  induction roleIds generalizing db with
  | nil => rfl
  | cons r rs ih =>
    simp only [assign]
    split
    · exact ih
    · exact ih

@[simp] theorem assign_accounts : (assign aid roleIds db).accounts = db.accounts := by
  induction roleIds generalizing db with
  | nil => rfl
  | cons r rs ih =>
    simp only [assign]
    split
    · exact ih
    · exact ih

@[simp] theorem assign_nextId : (assign aid roleIds db).nextId = db.nextId := by
  induction roleIds generalizing db with
  | nil => rfl
  | cons r rs ih =>
    simp only [assign]
    split
    · exact ih
    · exact ih

theorem assign_assigned (b r : Uuid) : (assign aid roleIds db).assigned b r = true ↔
    db.assigned b r = true ∨ b = aid ∧ r ∈ roleIds := by
  induction roleIds generalizing db with
  | nil => simp [assign]
  | cons rid rids ih =>
    simp only [assign]
    split
    · next h =>
      rw [ih, List.mem_cons]
      constructor
      · rintro (hb | ⟨hb, hr⟩)
        · exact Or.inl hb
        · exact Or.inr ⟨hb, Or.inr hr⟩
      · rintro (hb | ⟨hb, hr | hr⟩)
        · exact Or.inl hb
        · exact Or.inl (by rw [hb, hr]; exact h)
        · exact Or.inr ⟨hb, hr⟩
    · have happend : (assigned { db with
          accountRoles := db.accountRoles ++ [⟨db.nextVersion, aid, rid⟩]
          nextVersion := db.nextVersion + 1 } b r = true) ↔
          db.assigned b r = true ∨ b = aid ∧ r = rid := by
        simp only [assigned, List.any_append, List.any_cons, List.any_nil, Bool.or_false,
          Bool.or_eq_true, Bool.and_eq_true, decide_eq_true_eq, @eq_comm _ aid b, @eq_comm _ rid r]
      rw [ih, happend, List.mem_cons]
      tauto

theorem unassign_assigned {seen : List ℕ} {b r : Uuid}
    (h : (db.unassign aid seen).assigned b r = true) : db.assigned b r = true := by
  obtain ⟨x, hx, hkey⟩ := assigned_iff.mp h
  have hmem : x ∈ db.accountRoles := List.mem_of_mem_filter hx
  exact assigned_iff.mpr ⟨x, hmem, hkey⟩

theorem unassign_others {seen : List ℕ} {b r : Uuid} (hb : b ≠ aid)
    (h : db.assigned b r = true) : (db.unassign aid seen).assigned b r = true := by
  obtain ⟨x, hx, hkey⟩ := assigned_iff.mp h
  refine assigned_iff.mpr ⟨x, List.mem_filter.mpr ⟨hx, ?_⟩, hkey⟩
  have hne : x.accountId ≠ aid := by
    rw [hkey.1]
    exact hb
  simp [hne]

/-- No account has a role twice. -/
def KeysDistinct (db : Db) : Prop := (db.accountRoles.map fun x => (x.accountId, x.roleId)).Nodup

theorem assign_keys (h : db.KeysDistinct) : (assign aid roleIds db).KeysDistinct := by
  induction roleIds generalizing db with
  | nil => exact h
  | cons rid rids ih =>
    simp only [assign]
    split
    · exact ih h
    · next hnot =>
      refine ih ?_
      simp only [KeysDistinct, List.map_append, List.map_cons, List.map_nil]
      refine List.nodup_append.mpr ⟨h, List.nodup_singleton _, ?_⟩
      intro key hkey other hother heq
      rw [List.mem_singleton] at hother
      obtain ⟨x, hx, rfl⟩ := List.mem_map.mp hkey
      rw [hother] at heq
      have hassigned : db.assigned aid rid = true :=
        assigned_iff.mpr ⟨x, hx, (Prod.mk.injEq ..).mp heq⟩
      exact hnot hassigned

theorem KeysDistinct.filter (h : db.KeysDistinct) (p : Assignment → Bool) :
    KeysDistinct { db with accountRoles := db.accountRoles.filter p } :=
  List.Nodup.sublist (List.filter_sublist.map _) h

end Db

/-! ## The tables -/

def Seeded (rid : Uuid) : Prop := rid = superRole.id ∨ rid = viewerRole.id

def Known (permissions : List String) : Prop := ∀ p ∈ permissions, p ∈ ALL_PERMISSIONS

structure Db.Sound (db : Db) : Prop where
  superMem : superRole ∈ db.roles
  viewerMem : viewerRole ∈ db.roles
  system : ∀ r ∈ db.roles, r.isSystem = true → r = superRole ∨ r = viewerRole
  names : ∀ r ∈ db.roles, ∀ r' ∈ db.roles, r.name = r'.name → r = r'
  ids : (db.roles.map Role.id).Nodup
  idsLt : ∀ r ∈ db.roles, r.id < db.nextId
  known : ∀ r ∈ db.roles, Known r.permissions
  keys : db.KeysDistinct
  accountKey : ∀ x ∈ db.accountRoles, ∃ a ∈ db.accounts, a.id = x.accountId
  roleKey : ∀ x ∈ db.accountRoles, ∃ r ∈ db.roles, r.id = x.roleId
  usernames : (db.accounts.map Account.username).Nodup
  accountIds : (db.accounts.map Account.id).Nodup
  accountIdsLt : ∀ a ∈ db.accounts, a.id < db.nextId

def Db.hasAccount (db : Db) (aid : Uuid) : Prop := ∃ a ∈ db.accounts, a.id = aid

def Effect.Ok (db : Db) : Effect → Prop
  | .insertRole name permissions => (∀ r ∈ db.roles, r.name ≠ name) ∧ Known permissions
  | .updateRole rid name permissions => ¬ Seeded rid ∧
      (∀ n, name = some n → ∀ r ∈ db.roles, r.id ≠ rid → r.name ≠ n) ∧
      ∀ perms, permissions = some perms → Known perms
  | .deleteRole rid => ¬ Seeded rid
  | .insertAccount account roleIds => account.id = db.nextId ∧ account.deleted = false ∧
      db.usernameTaken account.username = false ∧ db.rolesExist roleIds = true ∧ roleIds ≠ []
  | .commitSetup account roleId => account.id = db.nextId ∧ account.deleted = false ∧
      db.usernameTaken account.username = false ∧ db.rolesExist [roleId] = true
  | .setRoles aid _ roleIds => db.hasAccount aid ∧ db.rolesExist roleIds = true ∧ roleIds ≠ []
  | .issue claims => ∃ rows resolved, db.joinAnswers claims.sub rows = true ∧
      resolveRoles rows = .ok resolved ∧ claims = issueAccessToken claims.sub resolved
  | _ => True

def Task.Sound (db : Db) : Task → Prop
  | .createRole _ permissions => Known permissions
  | .updateRoleWrite rid _ permissions => ¬ Seeded rid ∧ ∀ perms, permissions = some perms → Known perms
  | .deleteRoleCount rid _ | .deleteRoleDelete rid => ¬ Seeded rid
  | .createAccountInsert _ _ roleIds => roleIds ≠ []
  | .updateAccountWrite account _ => db.hasAccount account.id
  | .updateAccountCheck aid roleIds | .setRolesDelete aid roleIds | .setRolesInsert aid roleIds _ =>
      db.hasAccount aid ∧ roleIds ≠ []
  | _ => True

theorem Db.Sound.seeded : Db.seeded.Sound where
  superMem := by simp [Db.seeded]
  viewerMem := by simp [Db.seeded]
  system := by
    intro r hr _
    simpa [Db.seeded] using hr
  names := by decide
  ids := by decide
  idsLt := by decide
  known := by
    intro r hr p hp
    have hrows : ∀ r ∈ Db.seeded.roles, ∀ p ∈ r.permissions, p ∈ ALL_PERMISSIONS := by decide
    exact hrows r hr p hp
  keys := List.nodup_nil
  accountKey := by simp [Db.seeded]
  roleKey := by simp [Db.seeded]
  usernames := List.nodup_nil
  accountIds := List.nodup_nil
  accountIdsLt := by simp [Db.seeded]

/-! ## What each effect keeps -/

section Apply
variable {db : Db} {e : Effect}

theorem Db.rolesExist_iff {roleIds : List Uuid} :
    db.rolesExist roleIds = true ↔ ∀ rid ∈ roleIds, ∃ r ∈ db.roles, r.id = rid := by
  simp [Db.rolesExist]

theorem Db.updateAccount_ids (aid : Uuid) {f : Account → Account} (hf : ∀ a, (f a).id = a.id) :
    (db.updateAccount aid f).accounts.map Account.id = db.accounts.map Account.id := by
  simp only [Db.updateAccount, List.map_map]
  refine List.map_congr_left fun a _ => ?_
  simp only [Function.comp]
  split
  · exact hf a
  · rfl

theorem Db.updateAccount_usernames (aid : Uuid) {f : Account → Account}
    (hf : ∀ a, (f a).username = a.username) :
    (db.updateAccount aid f).accounts.map Account.username = db.accounts.map Account.username := by
  simp only [Db.updateAccount, List.map_map]
  refine List.map_congr_left fun a _ => ?_
  simp only [Function.comp]
  split
  · exact hf a
  · rfl

theorem Db.hasAccount_iff {aid : Uuid} : db.hasAccount aid ↔ aid ∈ db.accounts.map Account.id := by
  simp [Db.hasAccount]

theorem Db.hasAccount_updateAccount {aid bid : Uuid} {f : Account → Account}
    (hf : ∀ a, (f a).id = a.id) (h : db.hasAccount aid) : (db.updateAccount bid f).hasAccount aid := by
  rw [Db.hasAccount_iff] at h ⊢
  rwa [Db.updateAccount_ids bid hf]

/-- No statement drops a row of `accounts`. -/
theorem Db.hasAccount_apply {aid : Uuid} (h : db.hasAccount aid) : (db.apply e).hasAccount aid := by
  cases e with
  | insertAccount account roleIds =>
    obtain ⟨a, ha, haid⟩ := h
    exact ⟨a, by simp [Db.apply, Db.insertAccount, ha], haid⟩
  | commitSetup account roleId =>
    obtain ⟨a, ha, haid⟩ := h
    exact ⟨a, by simp [Db.apply, Db.insertAccount, ha], haid⟩
  | updateProfile account => exact Db.hasAccount_updateAccount (fun _ => rfl) h
  | softDelete bid => exact Db.hasAccount_updateAccount (fun _ => rfl) h
  | setActive bid active => exact Db.hasAccount_updateAccount (fun _ => rfl) h
  | setRoles bid seen roleIds =>
    obtain ⟨a, ha, haid⟩ := h
    exact ⟨a, by simpa [Db.apply, Db.unassign] using ha, haid⟩
  | _ => exact h

theorem Task.Sound.apply {t : Task} (h : t.Sound db) : t.Sound (db.apply e) := by
  cases t with
  | updateAccountWrite account roleIds => exact Db.hasAccount_apply h
  | updateAccountCheck aid roleIds => exact ⟨Db.hasAccount_apply h.1, h.2⟩
  | setRolesDelete aid roleIds => exact ⟨Db.hasAccount_apply h.1, h.2⟩
  | setRolesInsert aid roleIds seen => exact ⟨Db.hasAccount_apply h.1, h.2⟩
  | _ => exact h

theorem Db.Sound.of_accounts (h : db.Sound) (aid : Uuid) {f : Account → Account}
    (hid : ∀ a, (f a).id = a.id) (hname : ∀ a, (f a).username = a.username) :
    (db.updateAccount aid f).Sound where
  superMem := h.superMem
  viewerMem := h.viewerMem
  system := h.system
  names := h.names
  ids := h.ids
  idsLt := h.idsLt
  known := h.known
  keys := h.keys
  accountKey := by
    intro x hx
    have hold : db.hasAccount x.accountId := h.accountKey x hx
    rw [Db.hasAccount_iff, ← Db.updateAccount_ids aid hid, ← Db.hasAccount_iff] at hold
    exact hold
  roleKey := h.roleKey
  usernames := by
    rw [Db.updateAccount_usernames aid hname]
    exact h.usernames
  accountIds := by
    rw [Db.updateAccount_ids aid hid]
    exact h.accountIds
  accountIdsLt := by
    intro a ha
    have hmem : a.id ∈ (db.updateAccount aid f).accounts.map Account.id := List.mem_map_of_mem ha
    rw [Db.updateAccount_ids aid hid] at hmem
    obtain ⟨b, hb, hbid⟩ := List.mem_map.mp hmem
    rw [← hbid]
    exact h.accountIdsLt b hb

/-- Rows are given out to an account for roles that are there. -/
theorem Db.Sound.assign (h : db.Sound) {aid : Uuid} {roleIds : List Uuid} (haccount : db.hasAccount aid)
    (hexist : db.rolesExist roleIds = true) : (Db.assign aid roleIds db).Sound where
  superMem := by simpa using h.superMem
  viewerMem := by simpa using h.viewerMem
  system := by simpa using h.system
  names := by simpa using h.names
  ids := by simpa using h.ids
  idsLt := by simpa using h.idsLt
  known := by simpa using h.known
  keys := Db.assign_keys h.keys
  accountKey := by
    intro x hx
    rw [Db.assign_accounts]
    have hassigned := Db.assigned_iff.mpr ⟨x, hx, rfl, rfl⟩
    rcases (Db.assign_assigned _ _).mp hassigned with hold | ⟨hnew, -⟩
    · obtain ⟨y, hy, hya, -⟩ := Db.assigned_iff.mp hold
      have hy' := h.accountKey y hy
      rwa [hya] at hy'
    · rw [hnew]
      exact haccount
  roleKey := by
    intro x hx
    rw [Db.assign_roles]
    have hassigned := Db.assigned_iff.mpr ⟨x, hx, rfl, rfl⟩
    rcases (Db.assign_assigned _ _).mp hassigned with hold | ⟨-, hnew⟩
    · obtain ⟨y, hy, -, hyr⟩ := Db.assigned_iff.mp hold
      have hy' := h.roleKey y hy
      rwa [hyr] at hy'
    · exact Db.rolesExist_iff.mp hexist _ hnew
  usernames := by simpa using h.usernames
  accountIds := by simpa using h.accountIds
  accountIdsLt := by simpa using h.accountIdsLt

theorem Db.Sound.insertAccount (h : db.Sound) {account : Account} {roleIds : List Uuid}
    (hid : account.id = db.nextId) (hfree : db.usernameTaken account.username = false)
    (hexist : db.rolesExist roleIds = true) : (db.insertAccount account roleIds).Sound := by
  have hrow : Db.Sound { db with accounts := db.accounts ++ [account], nextId := db.nextId + 1 } :=
    { h with
      idsLt := by
        intro r hr
        have hlt := h.idsLt r hr
        exact Nat.lt_succ_of_lt hlt
      keys := h.keys
      accountKey := by
        intro x hx
        obtain ⟨a, ha, hax⟩ := h.accountKey x hx
        exact ⟨a, List.mem_append_left _ ha, hax⟩
      usernames := by
        simp only [List.map_append, List.map_cons, List.map_nil]
        refine List.nodup_append.mpr ⟨h.usernames, List.nodup_singleton _, ?_⟩
        intro u hu v hv heq
        rw [List.mem_singleton] at hv
        obtain ⟨a, ha, rfl⟩ := List.mem_map.mp hu
        have htaken : db.usernameTaken account.username = true := by
          simp only [Db.usernameTaken, List.any_eq_true, decide_eq_true_eq]
          exact ⟨a, ha, heq.trans hv⟩
        rw [hfree] at htaken
        cases htaken
      accountIds := by
        simp only [List.map_append, List.map_cons, List.map_nil]
        refine List.nodup_append.mpr ⟨h.accountIds, List.nodup_singleton _, ?_⟩
        intro u hu v hv heq
        rw [List.mem_singleton] at hv
        obtain ⟨a, ha, rfl⟩ := List.mem_map.mp hu
        have hlt := h.accountIdsLt a ha
        rw [heq, hv, hid] at hlt
        exact Nat.lt_irrefl _ hlt
      accountIdsLt := by
        intro a ha
        rcases List.mem_append.mp ha with hold | hnew
        · exact Nat.lt_succ_of_lt (h.accountIdsLt a hold)
        · rw [List.mem_singleton.mp hnew, hid]
          exact Nat.lt_succ_self _ }
  exact hrow.assign ⟨account, by simp, rfl⟩ hexist

theorem Db.Sound.insertRole (h : db.Sound) {name : String} {permissions : List String}
    (hname : ∀ r ∈ db.roles, r.name ≠ name) (hknown : Known permissions) :
    (db.apply (.insertRole name permissions)).Sound :=
  { h with
    superMem := List.mem_append_left _ h.superMem
    viewerMem := List.mem_append_left _ h.viewerMem
    system := by
      intro r hr hsystem
      rcases List.mem_append.mp hr with hold | hnew
      · exact h.system r hold hsystem
      · rw [List.mem_singleton.mp hnew] at hsystem
        cases hsystem
    names := by
      intro r hr r' hr' heq
      rcases List.mem_append.mp hr with hold | hnew
      · rcases List.mem_append.mp hr' with hold' | hnew'
        · exact h.names r hold r' hold' heq
        · rw [List.mem_singleton.mp hnew'] at heq
          exact absurd heq (hname r hold)
      · rcases List.mem_append.mp hr' with hold' | hnew'
        · rw [List.mem_singleton.mp hnew] at heq
          exact absurd heq.symm (hname r' hold')
        · rw [List.mem_singleton.mp hnew, List.mem_singleton.mp hnew']
    ids := by
      simp only [Db.apply, List.map_append, List.map_cons, List.map_nil]
      refine List.nodup_append.mpr ⟨h.ids, List.nodup_singleton _, ?_⟩
      intro u hu v hv heq
      rw [List.mem_singleton] at hv
      obtain ⟨r, hr, rfl⟩ := List.mem_map.mp hu
      have hlt := h.idsLt r hr
      rw [heq, hv] at hlt
      exact Nat.lt_irrefl _ hlt
    idsLt := by
      intro r hr
      rcases List.mem_append.mp hr with hold | hnew
      · exact Nat.lt_succ_of_lt (h.idsLt r hold)
      · rw [List.mem_singleton.mp hnew]
        exact Nat.lt_succ_self _
    known := by
      intro r hr
      rcases List.mem_append.mp hr with hold | hnew
      · exact h.known r hold
      · rw [List.mem_singleton.mp hnew]
        exact hknown
    keys := h.keys
    roleKey := by
      intro x hx
      obtain ⟨r, hr, hrx⟩ := h.roleKey x hx
      exact ⟨r, List.mem_append_left _ hr, hrx⟩
    accountIdsLt := by
      intro a ha
      exact Nat.lt_succ_of_lt (h.accountIdsLt a ha) }

theorem Db.Sound.eq_of_id (h : db.Sound) {r r' : Role} (hr : r ∈ db.roles) (hr' : r' ∈ db.roles)
    (hid : r.id = r'.id) : r = r' := List.inj_on_of_nodup_map h.ids hr hr' hid

theorem Db.Sound.updateRole (h : db.Sound) {rid : Uuid} {name : Option String}
    {permissions : Option (List String)} (hseed : ¬ Seeded rid)
    (hname : ∀ n, name = some n → ∀ r ∈ db.roles, r.id ≠ rid → r.name ≠ n)
    (hknown : ∀ perms, permissions = some perms → Known perms) :
    (db.apply (.updateRole rid name permissions)).Sound := by
  have hkeep : ∀ r ∈ db.roles, r.id ≠ rid → r ∈ (db.apply (.updateRole rid name permissions)).roles := by
    intro r hr hne
    exact List.mem_map.mpr ⟨r, hr, if_neg hne⟩
  have hback : ∀ r ∈ (db.apply (.updateRole rid name permissions)).roles,
      ∃ old ∈ db.roles, r.id = old.id ∧ r.isSystem = old.isSystem ∧ (old.id ≠ rid → r = old) ∧
        (old.id = rid → r.name = name.getD old.name ∧
          r.permissions = permissions.getD old.permissions) := by
    intro r hr
    obtain ⟨old, hold, rfl⟩ := List.mem_map.mp hr
    refine ⟨old, hold, ?_⟩
    by_cases hid : old.id = rid
    · rw [if_pos hid]
      exact ⟨rfl, rfl, fun hne => absurd hid hne, fun _ => ⟨rfl, rfl⟩⟩
    · rw [if_neg hid]
      exact ⟨rfl, rfl, fun _ => rfl, fun h => absurd h hid⟩
  have hids : (db.apply (.updateRole rid name permissions)).roles.map Role.id = db.roles.map Role.id := by
    simp only [Db.apply, List.map_map]
    refine List.map_congr_left fun r _ => ?_
    simp only [Function.comp]
    split <;> rfl
  have hnew : ∀ r ∈ db.roles, ∀ r' ∈ db.roles, r.id = rid → r'.id ≠ rid →
      name.getD r.name ≠ r'.name := by
    intro r hr r' hr' hid hid' heq
    cases hn : name with
    | none =>
      rw [hn] at heq
      have hsame := h.names r hr r' hr' heq
      exact hid' (hsame ▸ hid)
    | some n =>
      rw [hn] at heq
      exact hname n hn r' hr' hid' heq.symm
  exact { h with
    superMem := hkeep _ h.superMem fun hid => hseed (Or.inl hid.symm)
    viewerMem := hkeep _ h.viewerMem fun hid => hseed (Or.inr hid.symm)
    system := by
      intro r hr hsystem
      obtain ⟨old, hold, -, hsys, hsame, -⟩ := hback r hr
      rw [hsys] at hsystem
      have hcases := h.system old hold hsystem
      have hne : old.id ≠ rid := by
        intro hid
        rcases hcases with rfl | rfl
        · exact hseed (Or.inl hid.symm)
        · exact hseed (Or.inr hid.symm)
      rw [hsame hne]
      exact hcases
    names := by
      intro r hr r' hr' heq
      have hmap := List.inj_on_of_nodup_map (hids ▸ h.ids) hr hr'
      obtain ⟨old, hold, hid, -, hsame, hchanged⟩ := hback r hr
      obtain ⟨old', hold', hid', -, hsame', hchanged'⟩ := hback r' hr'
      refine hmap ?_
      rw [hid, hid']
      by_cases hr : old.id = rid
      · by_cases hr' : old'.id = rid
        · rw [hr, hr']
        · rw [(hchanged hr).1, hsame' hr'] at heq
          exact absurd heq (hnew old hold old' hold' hr hr')
      · by_cases hr' : old'.id = rid
        · rw [(hchanged' hr').1, hsame hr] at heq
          exact absurd heq.symm (hnew old' hold' old hold hr' hr)
        · rw [hsame hr, hsame' hr'] at heq
          rw [h.names old hold old' hold' heq]
    ids := hids ▸ h.ids
    idsLt := by
      intro r hr
      obtain ⟨old, hold, hid, -⟩ := hback r hr
      rw [hid]
      exact h.idsLt old hold
    known := by
      intro r hr
      obtain ⟨old, hold, -, -, hsame, hchanged⟩ := hback r hr
      by_cases hid : old.id = rid
      · rw [(hchanged hid).2]
        cases hp : permissions with
        | none => exact h.known old hold
        | some perms => exact hknown perms hp
      · rw [hsame hid]
        exact h.known old hold
    keys := h.keys
    roleKey := by
      intro x hx
      obtain ⟨r, hr, hrx⟩ := h.roleKey x hx
      have hmem : r.id ∈ (db.apply (.updateRole rid name permissions)).roles.map Role.id := by
        rw [hids]
        exact List.mem_map_of_mem hr
      obtain ⟨s, hs, hsid⟩ := List.mem_map.mp hmem
      exact ⟨s, hs, hsid.trans hrx⟩ }

theorem Db.Sound.deleteRole (h : db.Sound) {rid : Uuid} (hseed : ¬ Seeded rid) :
    (db.apply (.deleteRole rid)).Sound := by
  have hkeep : ∀ r ∈ db.roles, r.id ≠ rid → r ∈ (db.apply (.deleteRole rid)).roles := by
    intro r hr hne
    exact List.mem_filter.mpr ⟨hr, decide_eq_true hne⟩
  have hback : ∀ r ∈ (db.apply (.deleteRole rid)).roles, r ∈ db.roles :=
    fun r hr => List.mem_of_mem_filter hr
  exact { h with
    superMem := hkeep _ h.superMem fun hid => hseed (Or.inl hid.symm)
    viewerMem := hkeep _ h.viewerMem fun hid => hseed (Or.inr hid.symm)
    system := fun r hr => h.system r (hback r hr)
    names := fun r hr r' hr' => h.names r (hback r hr) r' (hback r' hr')
    ids := h.ids.sublist (List.filter_sublist.map _)
    idsLt := fun r hr => h.idsLt r (hback r hr)
    known := fun r hr => h.known r (hback r hr)
    keys := h.keys.filter _
    accountKey := fun x hx => h.accountKey x (List.mem_of_mem_filter hx)
    roleKey := by
      intro x hx
      obtain ⟨hmem, hne⟩ := List.mem_filter.mp hx
      obtain ⟨r, hr, hrx⟩ := h.roleKey x hmem
      refine ⟨r, hkeep r hr ?_, hrx⟩
      rw [hrx]
      exact of_decide_eq_true hne }

theorem Db.Sound.unassign (h : db.Sound) (aid : Uuid) (seen : List ℕ) : (db.unassign aid seen).Sound :=
  { h with
    keys := h.keys.filter _
    accountKey := fun x hx => h.accountKey x (List.mem_of_mem_filter hx)
    roleKey := fun x hx => h.roleKey x (List.mem_of_mem_filter hx) }

theorem Db.Sound.apply (h : db.Sound) (hok : e.Ok db) : (db.apply e).Sound := by
  cases e with
  | insertRole name permissions => exact h.insertRole hok.1 hok.2
  | updateRole rid name permissions => exact h.updateRole hok.1 hok.2.1 hok.2.2
  | deleteRole rid => exact h.deleteRole hok
  | insertAccount account roleIds =>
    obtain ⟨hid, -, hfree, hexist, -⟩ := hok
    exact h.insertAccount hid hfree hexist
  | commitSetup account roleId =>
    obtain ⟨hid, -, hfree, hexist⟩ := hok
    exact h.insertAccount hid hfree hexist
  | updateProfile account => exact h.of_accounts account.id (fun _ => rfl) fun _ => rfl
  | setRoles aid seen roleIds => exact (h.unassign aid seen).assign hok.1 hok.2.1
  | softDelete aid => exact h.of_accounts aid (fun _ => rfl) fun _ => rfl
  | setActive aid active => exact h.of_accounts aid (fun _ => rfl) fun _ => rfl
  | _ => exact h

end Apply

end Veronex.Rbac
