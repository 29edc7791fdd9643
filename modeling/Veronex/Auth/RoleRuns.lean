import Veronex.Auth.RoleTables

/-! # Runs of the role and account endpoints

`role_tables_sound`: what every reachable state keeps, and what a token may say.
`no_escalation`: accounts without a managing permission cannot gain one.
`live_accounts_have_roles`: when an account that can log in has a role.
`setups_bounded`: how often the first-run setup can succeed.
-/
namespace Veronex.Rbac
open Concurrency
set_option autoImplicit false

/-! ## One statement -/

section Step
variable {db : Db} {e : Effect} {t t' : Task} {lockFree : Bool} {choice : Choice}

theorem Db.fetchRoleIdentity_some {rid : Uuid} {row : Role} (h : db.fetchRoleIdentity rid = some row) :
    row ∈ db.roles ∧ row.id = rid := by
  have hid := List.find?_some h
  exact ⟨List.mem_of_find?_eq_some h, of_decide_eq_true hid⟩

theorem Db.roleByName_some {name : String} {row : Role} (h : db.roleByName name = some row) :
    row ∈ db.roles ∧ row.name = name := by
  have hname := List.find?_some h
  exact ⟨List.mem_of_find?_eq_some h, of_decide_eq_true hname⟩

theorem Db.getById_some {aid : Uuid} {a : Account} (h : db.getById aid = some a) :
    a ∈ db.accounts ∧ a.id = aid ∧ a.deleted = false := by
  have hrow := List.find?_some h
  simp only [Bool.and_eq_true, decide_eq_true_eq, Bool.not_eq_true'] at hrow
  exact ⟨List.mem_of_find?_eq_some h, hrow⟩

/-- A role that is no system role is not one of the seeded ones. -/
theorem Db.Sound.not_seeded (h : db.Sound) {row : Role} (hrow : row ∈ db.roles)
    (hsystem : row.isSystem = false) : ¬ Seeded row.id := by
  rintro (hid | hid)
  · rw [h.eq_of_id hrow h.superMem hid] at hsystem
    cases hsystem
  · rw [h.eq_of_id hrow h.viewerMem hid] at hsystem
    cases hsystem

theorem known_of_validate {perms : List String} (h : validatePermissions perms = .ok ()) :
    Known perms := by
  unfold validatePermissions at h
  split at h
  · cases h
  · next hnone =>
    intro p hp
    have hp' := List.find?_eq_none.mp hnone p hp
    simpa using hp'

/-- What a statement that is answered writes is in order, and so is what its call does next. -/
theorem Task.answered_sound (hdb : db.Sound) (ht : t.Sound db)
    (h : t.answered db lockFree choice = some (e, t')) : e.Ok db ∧ t'.Sound (db.apply e) := by
  cases t with
  | createRole name permissions =>
    simp only [Task.answered, finishWith] at h
    split at h
    · cases h
      exact ⟨trivial, trivial⟩
    · next hfree =>
      cases h
      refine ⟨⟨?_, ht⟩, trivial⟩
      intro r hr hname
      exact hfree (List.any_eq_true.mpr ⟨r, hr, decide_eq_true hname⟩)
  | updateRoleFetch rid req =>
    simp only [Task.answered, finishWith] at h
    split at h
    · cases h
      exact ⟨trivial, trivial⟩
    · next row hrow =>
      obtain ⟨hmem, hid⟩ := Db.fetchRoleIdentity_some hrow
      split at h
      · cases h
        exact ⟨trivial, trivial⟩
      · next hsystem =>
        have hseed : ¬ Seeded rid := by
          have hnot := hdb.not_seeded hmem (Bool.eq_false_iff.mpr hsystem)
          rwa [hid] at hnot
        split at h
        · cases h
          exact ⟨trivial, trivial⟩
        · next hvalid =>
          have hperms : ∀ perms, req.permissions = some perms → Known perms := by
            intro perms hsome
            rw [hsome] at hvalid
            exact known_of_validate hvalid
          split at h
          · cases h
            exact ⟨trivial, trivial⟩
          · split at h
            · cases h
              exact ⟨trivial, hseed, hperms⟩
            · split at h
              · cases h
                exact ⟨trivial, trivial⟩
              · cases h
                exact ⟨trivial, hseed, hperms⟩
  | updateRoleWrite rid name permissions =>
    simp only [Task.answered, finishWith] at h
    split at h
    · cases h
      exact ⟨trivial, trivial⟩
    · next hfree =>
      cases h
      refine ⟨⟨ht.1, ?_, ht.2⟩, trivial⟩
      intro n hn r hr hne hname
      refine hfree ?_
      rw [hn]
      exact List.any_eq_true.mpr ⟨r, hr, by simp [hne, hname]⟩
  | deleteRoleFetch rid =>
    simp only [Task.answered, finishWith] at h
    split at h
    · cases h
      exact ⟨trivial, trivial⟩
    · next row hrow =>
      obtain ⟨hmem, hid⟩ := Db.fetchRoleIdentity_some hrow
      split at h
      · cases h
        exact ⟨trivial, trivial⟩
      · next hsystem =>
        cases h
        refine ⟨trivial, ?_⟩
        have hnot := hdb.not_seeded hmem (Bool.eq_false_iff.mpr hsystem)
        rwa [hid] at hnot
  | deleteRoleCount rid name =>
    simp only [Task.answered, finishWith] at h
    split at h
    · cases h
      exact ⟨trivial, trivial⟩
    · cases h
      exact ⟨trivial, ht⟩
  | deleteRoleDelete rid =>
    cases h
    exact ⟨ht, trivial⟩
  | createAccountCheck creator req =>
    simp only [Task.answered, finishWith] at h
    split at h
    · next hne =>
      split at h
      · cases h
        refine ⟨trivial, fun hnil => ?_⟩
        rw [hnil] at hne
        exact absurd hne (by decide)
      · cases h
        exact ⟨trivial, trivial⟩
    · split at h
      · split at h
        · cases h
          exact ⟨trivial, List.cons_ne_nil _ _⟩
        · cases h
          exact ⟨trivial, trivial⟩
      · split at h
        · cases h
          exact ⟨trivial, List.cons_ne_nil _ _⟩
        · cases h
          exact ⟨trivial, trivial⟩
  | createAccountInsert creator req roleIds =>
    simp only [Task.answered, finishWith] at h
    split at h
    · cases h
      exact ⟨trivial, trivial⟩
    · next hfree =>
      cases h
      simp only [Bool.or_eq_true, Bool.not_eq_true', not_or, Bool.not_eq_true, Bool.not_eq_false] at hfree
      exact ⟨⟨rfl, rfl, hfree.1, hfree.2, ht⟩, trivial⟩
  | updateAccountGet aid req =>
    simp only [Task.answered, finishWith] at h
    split at h
    · cases h
      exact ⟨trivial, trivial⟩
    · next account haccount =>
      cases h
      obtain ⟨hmem, -⟩ := Db.getById_some haccount
      exact ⟨trivial, account, hmem, rfl⟩
  | updateAccountWrite account roleIds =>
    simp only [Task.answered] at h
    cases h
    refine ⟨trivial, ?_⟩
    split
    · trivial
    · trivial
    · exact ⟨Db.hasAccount_apply ht, List.cons_ne_nil _ _⟩
  | updateAccountCheck aid roleIds =>
    simp only [Task.answered, finishWith] at h
    split at h
    · cases h
      exact ⟨trivial, ht⟩
    · cases h
      exact ⟨trivial, trivial⟩
  | setRolesDelete aid roleIds =>
    cases h
    exact ⟨trivial, ht⟩
  | setRolesInsert aid roleIds seen =>
    simp only [Task.answered, finishWith] at h
    split at h
    · next hexist =>
      cases h
      exact ⟨⟨ht.1, hexist, ht.2⟩, trivial⟩
    · cases h
      exact ⟨trivial, trivial⟩
  | deleteAccountGet aid =>
    simp only [Task.answered, finishWith] at h
    split at h
    · cases h
      exact ⟨trivial, trivial⟩
    · cases h
      exact ⟨trivial, trivial⟩
  | deleteAccountCascade aid =>
    cases h
    exact ⟨trivial, trivial⟩
  | setActive aid active =>
    cases h
    exact ⟨trivial, trivial⟩
  | setupLock username =>
    simp only [Task.answered] at h
    split at h
    · cases h
      exact ⟨trivial, trivial⟩
    · cases h
  | setupCount username =>
    simp only [Task.answered] at h
    split at h
    · cases h
      exact ⟨trivial, trivial⟩
    · cases h
      exact ⟨trivial, trivial⟩
  | setupRole username =>
    simp only [Task.answered] at h
    split at h
    · cases h
      exact ⟨trivial, trivial⟩
    · cases h
      exact ⟨trivial, trivial⟩
  | setupInsert username roleId =>
    simp only [Task.answered] at h
    split at h
    · cases h
      exact ⟨trivial, trivial⟩
    · next hfree =>
      cases h
      simp only [Bool.or_eq_true, Bool.not_eq_true', not_or, Bool.not_eq_true, Bool.not_eq_false] at hfree
      exact ⟨⟨rfl, rfl, hfree.1, hfree.2⟩, trivial⟩
  | bootstrapLookup user =>
    simp only [Task.answered] at h
    split at h
    · cases h
      exact ⟨trivial, trivial⟩
    · cases h
      exact ⟨trivial, trivial⟩
  | bootstrapRole user =>
    simp only [Task.answered] at h
    split at h
    · cases h
      exact ⟨trivial, trivial⟩
    · cases h
      exact ⟨trivial, trivial⟩
  | bootstrapInsert user roleId =>
    simp only [Task.answered] at h
    split at h
    · cases h
      exact ⟨trivial, trivial⟩
    · next hfree =>
      cases h
      simp only [Bool.or_eq_true, Bool.not_eq_true', not_or, Bool.not_eq_true, Bool.not_eq_false] at hfree
      exact ⟨⟨rfl, rfl, hfree.1, hfree.2, List.cons_ne_nil _ _⟩, trivial⟩
  | login username =>
    simp only [Task.answered, finishWith] at h
    split at h
    · cases h
      exact ⟨trivial, trivial⟩
    · split at h
      · cases h
        exact ⟨trivial, trivial⟩
      · split at h
        · cases h
          exact ⟨trivial, trivial⟩
        · cases h
          exact ⟨trivial, trivial⟩
  | refresh aid =>
    simp only [Task.answered, finishWith] at h
    split at h
    · cases h
      exact ⟨trivial, trivial⟩
    · split at h
      · cases h
        exact ⟨trivial, trivial⟩
      · cases h
        exact ⟨trivial, trivial⟩
  | signIn aid =>
    simp only [Task.answered, finishWith] at h
    split at h
    · next hrows =>
      split at h
      · cases h
        exact ⟨trivial, trivial⟩
      · next resolved hresolved =>
        cases h
        exact ⟨⟨choice.rows, resolved, hrows, hresolved, rfl⟩, trivial⟩
    · cases h
  | finished result => cases h

theorem Task.step_cases (h : t.step db lockFree choice = some (e, t')) :
    (choice.fails = true ∧ e = t.failed ∧ t' = internalError) ∨
      (choice.fails = false ∧ t.answered db lockFree choice = some (e, t')) := by
  unfold Task.step at h
  split at h
  · next hfails =>
    split at h
    · cases h
    · cases h
      exact Or.inl ⟨hfails, rfl, rfl⟩
  · next hfails => exact Or.inr ⟨Bool.eq_false_iff.mpr hfails, h⟩

theorem Task.failed_cases (t : Task) : t.failed = .read ∨ t.failed = .unlock := by
  cases t <;> first | exact Or.inl rfl | exact Or.inr rfl

theorem Task.step_sound (hdb : db.Sound) (ht : t.Sound db)
    (h : t.step db lockFree choice = some (e, t')) : e.Ok db ∧ t'.Sound (db.apply e) := by
  rcases Task.step_cases h with ⟨-, rfl, rfl⟩ | ⟨-, h⟩
  · rcases t.failed_cases with hf | hf <;> rw [hf] <;> exact ⟨trivial, trivial⟩
  · exact Task.answered_sound hdb ht h

theorem Request.start_sound (claims : Option Claims) (req : Request) : (req.start claims).Sound db := by
  cases req with
  | createRole name permissions =>
    simp only [Request.start, reject]
    split
    · trivial
    · split
      · trivial
      · split
        · trivial
        · next hvalid => exact known_of_validate hvalid
  | createAccount req =>
    simp only [Request.start, reject]
    split
    · trivial
    · split <;> trivial
  | setup username password =>
    simp only [Request.start, reject]
    split
    · trivial
    · split <;> trivial
  | login username => trivial
  | refresh aid => trivial
  | _ =>
    simp only [Request.start, reject]
    split <;> trivial

end Step

/-! ## Steps of the server -/

namespace World
variable {w w' : World} {a : Action}

/-- A step starts a task, or takes one statement of a task. -/
inductive Moved (w : World) : Action → World → Prop
  | started (claims : Option Claims) (req : Request) (h : ∀ c ∈ claims, c ∈ w.issued) :
      Moved w (.request claims req) { w with tasks := w.tasks ++ [req.start claims] }
  | boot (user : String) : Moved w (.bootstrap user) { w with tasks := w.tasks ++ [.bootstrapLookup user] }
  | ran (k : ℕ) (choice : Choice) (t t' : Task) (e : Effect) (ht : w.tasks[k]? = some t)
      (h : t.step w.db w.setupLock.isNone choice = some (e, t')) :
      Moved w (.run k choice) { w.apply k e with tasks := w.tasks.set k t' }

theorem step_moved (h : w.step a = some w') : w.Moved a w' := by
  cases a with
  | request claims req =>
    simp only [step] at h
    split at h
    · next hall =>
      cases h
      refine Moved.started claims req fun c hc => ?_
      cases hc
      simpa using hall
    · cases h
  | bootstrap user =>
    cases h
    exact Moved.boot user
  | run k choice =>
    simp only [step] at h
    split at h
    · cases h
    · next t ht =>
      split at h
      · cases h
      · next e t' hstep =>
        cases h
        exact Moved.ran k choice t t' e ht hstep

structure Sound (w : World) : Prop where
  db : w.db.Sound
  tasks : ∀ t ∈ w.tasks, t.Sound w.db

theorem mem_of_append {t new : Task} {ts : List Task} (h : t ∈ ts ++ [new]) : t ∈ ts ∨ t = new := by
  simpa using h

theorem mem_of_set {t t' : Task} {ts : List Task} {k : ℕ} (h : t ∈ ts.set k t') : t ∈ ts ∨ t = t' :=
  List.mem_or_eq_of_mem_set h

theorem Sound.step (h : w.Sound) (hs : w.step a = some w') : w'.Sound := by
  cases step_moved hs with
  | started claims req _ =>
    refine ⟨h.db, fun t ht => ?_⟩
    rcases mem_of_append ht with ht | rfl
    · exact h.tasks t ht
    · exact Request.start_sound claims req
  | boot user =>
    refine ⟨h.db, fun t ht => ?_⟩
    rcases mem_of_append ht with ht | rfl
    · exact h.tasks t ht
    · trivial
  | ran k choice t t' e ht hstep =>
    obtain ⟨hok, ht'⟩ := Task.step_sound h.db (h.tasks t (List.mem_of_getElem? ht)) hstep
    refine ⟨h.db.apply hok, fun u hu => ?_⟩
    rcases mem_of_set hu with hu | rfl
    · exact (h.tasks u hu).apply
    · exact ht'

theorem sound_of_run {ok : World → Action → Prop} (h : Run step ok init w) : w.Sound := by
  have hinit : init.Sound := ⟨Db.Sound.seeded, by simp [init]⟩
  exact h.invariant hinit fun x y a _ hx _ hs => hx.step hs

end World

/-! ## Tokens -/

theorem mem_btreeSet {xs : List String} {p : String} : p ∈ btreeSet xs ↔ p ∈ xs := by
  simp [btreeSet]

theorem isSuperRow_iff {db : Db} (h : db.Sound) {r : Role} (hr : r ∈ db.roles) :
    isSuperRow r = true ↔ r = superRole := by
  constructor
  · intro hrow
    simp only [isSuperRow, Bool.and_eq_true, decide_eq_true_eq] at hrow
    exact h.names r hr superRole h.superMem hrow.2
  · rintro rfl
    decide

theorem Db.joinAnswers_cases {db : Db} {aid : Uuid} {rows : List Role}
    (h : db.joinAnswers aid rows = true) :
    rows.Nodup ∧ (∀ r ∈ rows, r ∈ db.rolesOf aid) ∧ rows.length = min 50 (db.rolesOf aid).length := by
  simp only [Db.joinAnswers, Bool.and_eq_true, decide_eq_true_eq, List.all_eq_true] at h
  exact ⟨h.1.1, h.1.2, h.2⟩

/-- With at most 50 roles the join answers all of them. -/
theorem Db.joinAnswers_all {db : Db} {aid : Uuid} {rows : List Role}
    (h : db.joinAnswers aid rows = true) (hfew : (db.rolesOf aid).length ≤ 50) {r : Role}
    (hr : r ∈ db.rolesOf aid) : r ∈ rows := by
  obtain ⟨hnodup, hsub, hlength⟩ := Db.joinAnswers_cases h
  have hsubperm : rows.Subperm (db.rolesOf aid) := List.subperm_of_subset hnodup hsub
  have hperm := hsubperm.perm_of_length_le (by omega)
  exact hperm.mem_iff.mpr hr

/-- What a token says about the roles its account has when it is made. -/
structure Claims.Grounded (db : Db) (c : Claims) : Prop where
  super : c.role = AccountRole.super → superRole ∈ db.rolesOf c.sub ∧ ∀ p, p ∈ c.permissions ↔ p ∈ ALL_PERMISSIONS
  permission : ∀ p ∈ c.permissions, p ∈ ALL_PERMISSIONS ∧ ∃ r ∈ db.rolesOf c.sub, p ∈ r.permissions
  complete : (db.rolesOf c.sub).length ≤ 50 → (superRole ∈ db.rolesOf c.sub → c.role = AccountRole.super) ∧
    ∀ r ∈ db.rolesOf c.sub, ∀ p ∈ r.permissions, p ∈ c.permissions

theorem resolveRoles_cases {rows : List Role} {resolved : ResolvedRole}
    (h : resolveRoles rows = .ok resolved) : rows ≠ [] ∧ resolved.isSuper = rows.any isSuperRow ∧
      ∀ p, p ∈ resolved.permissions ↔
        p ∈ if rows.any isSuperRow then ALL_PERMISSIONS else rows.flatMap Role.permissions := by
  unfold resolveRoles at h
  split at h
  · cases h
  · next hne =>
    cases h
    refine ⟨fun hnil => hne (by rw [hnil]; rfl), rfl, fun p => ?_⟩
    exact mem_btreeSet

theorem superRole_permissions : superRole.permissions = ALL_PERMISSIONS := rfl

theorem grounded_of_ok {db : Db} (h : db.Sound) {c : Claims} (hok : (Effect.issue c).Ok db) :
    c.Grounded db := by
  obtain ⟨rows, resolved, hrows, hresolved, hc⟩ := hok
  obtain ⟨-, hsub, -⟩ := Db.joinAnswers_cases hrows
  obtain ⟨-, hsuper, hperms⟩ := resolveRoles_cases hresolved
  have hmem : ∀ r ∈ rows, r ∈ db.roles := fun r hr => (Db.mem_rolesOf.mp (hsub r hr)).1
  have hcperms : c.permissions = resolved.permissions := congrArg Claims.permissions hc
  have hcrole : c.role = if resolved.isSuper then AccountRole.super else AccountRole.admin :=
    congrArg Claims.role hc
  have hrole : c.role = AccountRole.super ↔ rows.any isSuperRow = true := by
    rw [hcrole, hsuper]
    cases rows.any isSuperRow <;> simp
  have hheld : rows.any isSuperRow = true → superRole ∈ rows := by
    intro hany
    obtain ⟨r, hr, hrow⟩ := List.any_eq_true.mp hany
    rwa [(isSuperRow_iff h (hmem r hr)).mp hrow] at hr
  refine ⟨?_, ?_, ?_⟩
  · intro hcsuper
    have hany := hrole.mp hcsuper
    refine ⟨hsub _ (hheld hany), fun p => ?_⟩
    rw [hcperms, hperms, if_pos hany]
  · intro p hp
    rw [hcperms, hperms] at hp
    split at hp
    · next hany => exact ⟨hp, superRole, hsub _ (hheld hany), hp⟩
    · obtain ⟨r, hr, hpr⟩ := List.mem_flatMap.mp hp
      exact ⟨h.known r (hmem r hr) p hpr, r, hsub r hr, hpr⟩
  · intro hfew
    have hall : ∀ r ∈ db.rolesOf c.sub, r ∈ rows := fun r hr => Db.joinAnswers_all hrows hfew hr
    refine ⟨fun hs => ?_, fun r hr p hp => ?_⟩
    · exact hrole.mpr (List.any_eq_true.mpr ⟨superRole, hall _ hs, by decide⟩)
    · have hrk : p ∈ ALL_PERMISSIONS := h.known r (hmem r (hall r hr)) p hp
      rw [hcperms, hperms]
      split
      · exact hrk
      · exact List.mem_flatMap.mpr ⟨r, hall r hr, hp⟩

/-- The tokens after a step: at most one more, grounded in the tables it was made from. -/
theorem World.issued_step {w w' : World} {a : Action} (h : w.Sound) (hs : w.step a = some w') :
    w'.issued = w.issued ∨ ∃ c, w'.issued = c :: w.issued ∧ c.Grounded w.db ∧ w'.db = w.db := by
  cases World.step_moved hs with
  | started claims req _ => exact Or.inl rfl
  | boot user => exact Or.inl rfl
  | ran k choice t t' e ht hstep =>
    obtain ⟨hok, -⟩ := Task.step_sound h.db (h.tasks t (List.mem_of_getElem? ht)) hstep
    cases e with
    | issue c => exact Or.inr ⟨c, rfl, grounded_of_ok h.db hok, rfl⟩
    | _ => exact Or.inl rfl

/-- A token names known permissions only, and a super token all of them. -/
def World.TokensKnown (w : World) : Prop := ∀ c ∈ w.issued, Known c.permissions ∧
  (c.role = AccountRole.super → ∀ p ∈ ALL_PERMISSIONS, p ∈ c.permissions)

theorem World.tokensKnown_of_run {w : World} (h : Run World.step (fun _ _ => True) World.init w) :
    w.TokensKnown := by
  have hinit : World.init.TokensKnown := by simp [World.TokensKnown, World.init]
  refine h.invariant hinit fun x y a hrun hx _ hs => ?_
  intro c hc
  rcases World.issued_step (World.sound_of_run hrun) hs with heq | ⟨new, heq, hnew, -⟩
  · rw [heq] at hc
    exact hx c hc
  · rw [heq] at hc
    rcases List.mem_cons.mp hc with rfl | hc
    · exact ⟨fun p hp => (hnew.permission p hp).1, fun hsuper p hp => ((hnew.super hsuper).2 p).mpr hp⟩
    · exact hx c hc

/-- In every reachable state the seeded roles are as they were seeded and the only system roles, names
and assignments are distinct and refer to rows that are there, all permissions are known ones, and
every token is grounded in the roles its account has when it is made. -/
theorem role_tables_sound {w : World} (h : Run World.step (fun _ _ => True) World.init w) :
    w.db.Sound ∧ w.TokensKnown ∧
      ∀ a w', w.step a = some w' → w'.issued = w.issued ∨
        ∃ c, w'.issued = c :: w.issued ∧ c.Grounded w.db ∧ w'.db = w.db :=
  ⟨(World.sound_of_run h).db, World.tokensKnown_of_run h,
    fun _ _ hs => World.issued_step (World.sound_of_run h) hs⟩

/-! A run: the first account, and one that it makes. -/

def answered (rows : List Role) : Choice := { fails := false, verified := true, rows }

def statements (k n : ℕ) : List Action := List.replicate n (Action.run k (answered []))

def rootToken : Claims :=
  issueAccessToken 2 { permissions := btreeSet ALL_PERMISSIONS, name := "super", isSuper := true }

def accountRequest (username : String) (roleIds : List Uuid) : CreateAccountRequest :=
  { username, name := username, email := none, roleIds, roleId := none, department := none,
    position := none }

/-- `root` is set up and signed in. -/
def rootActs : List Action :=
  [Action.request none (Request.setup "root" "correct horse")] ++ statements 0 4 ++
    [Action.run 0 (answered [superRole])]

/-- `alice` is made a viewer and logs in. -/
def aliceActs : List Action :=
  rootActs ++ [Action.request (some rootToken) (Request.createAccount (accountRequest "alice" []))] ++
    statements 1 2 ++ [Action.request none (Request.login "alice")] ++ statements 2 1 ++
    [Action.run 2 (answered [viewerRole])]

theorem role_tables_of_alice : ∃ w, Run World.step (fun _ _ => True) World.init w ∧
    w.issued.map Claims.sub = [3, 2] ∧ w.db.Sound ∧ w.TokensKnown := by
  have hexec : ((exec World.step (fun _ _ => true) World.init aliceActs).any fun w =>
      decide (w.issued.map Claims.sub = [3, 2])) = true := by
    decide +kernel
  obtain ⟨w, hrun, hw⟩ :=
    @Run.exists_of_exec _ _ _ _ (fun _ _ => True) (fun _ _ _ => trivial) _ _ _ hexec
  obtain ⟨hdb, htokens, -⟩ := role_tables_sound hrun
  exact ⟨w, hrun, of_decide_eq_true hw, hdb, htokens⟩

/-! ## Accounts that may not manage -/

def Claims.Manages (c : Claims) : Prop :=
  c.role = AccountRole.super ∨ "role_manage" ∈ c.permissions ∨ "account_manage" ∈ c.permissions

def Role.Manages (r : Role) : Prop :=
  isSuperRow r = true ∨ "role_manage" ∈ r.permissions ∨ "account_manage" ∈ r.permissions

/-- The calls that anyone can make, as far as they come while an account is live. -/
def Task.Harmless : Task → Prop
  | .setupLock _ | .setupCount _ | .login _ | .refresh _ | .signIn _ | .finished _ => True
  | _ => False

/-- Requests with a token come from these accounts; the server is not started again. -/
def ByUsers (users : Uuid → Prop) (_ : World) : Action → Prop
  | .request claims _ => ∀ c ∈ claims, users c.sub
  | .bootstrap _ => False
  | .run _ _ => True

theorem requirePermission_denied {permission : String} {claims : Option Claims}
    (hperm : permission = "role_manage" ∨ permission = "account_manage")
    (h : ∀ c ∈ claims, ¬ c.Manages) : ∃ e, requirePermission permission claims = .error e := by
  cases claims with
  | none => exact ⟨_, rfl⟩
  | some c =>
    have hnot := h c rfl
    simp only [Claims.Manages, not_or] at hnot
    have hmem : permission ∉ c.permissions := by
      rcases hperm with rfl | rfl
      · exact hnot.2.1
      · exact hnot.2.2
    exact ⟨_, by simp only [requirePermission, if_neg hnot.1, if_neg hmem]; rfl⟩

theorem Request.start_harmless {claims : Option Claims} (req : Request)
    (h : ∀ c ∈ claims, ¬ c.Manages) : (req.start claims).Harmless := by
  obtain ⟨e₁, hrole⟩ := requirePermission_denied (Or.inl rfl) h
  obtain ⟨e₂, haccount⟩ := requirePermission_denied (Or.inr rfl) h
  cases req with
  | setup username password =>
    simp only [Request.start, reject]
    split
    · trivial
    · split <;> trivial
  | login username => trivial
  | refresh aid => trivial
  | _ =>
    simp only [Request.start, hrole, haccount]
    trivial

theorem Task.answered_harmless {db : Db} {e : Effect} {t t' : Task} {lockFree : Bool} {choice : Choice}
    (hlive : ∃ a ∈ db.accounts, a.deleted = false) (ht : t.Harmless)
    (h : t.answered db lockFree choice = some (e, t')) : t'.Harmless ∧ db.apply e = db := by
  cases t with
  | setupLock username =>
    simp only [Task.answered] at h
    split at h
    · cases h
      exact ⟨trivial, rfl⟩
    · cases h
  | setupCount username =>
    simp only [Task.answered] at h
    split at h
    · cases h
      exact ⟨trivial, rfl⟩
    · next hnone =>
      obtain ⟨a, ha, hdeleted⟩ := hlive
      exact absurd (List.any_eq_true.mpr ⟨a, ha, by simp [hdeleted]⟩) hnone
  | login username =>
    simp only [Task.answered, finishWith] at h
    split at h
    · cases h
      exact ⟨trivial, rfl⟩
    · split at h
      · cases h
        exact ⟨trivial, rfl⟩
      · split at h
        · cases h
          exact ⟨trivial, rfl⟩
        · cases h
          exact ⟨trivial, rfl⟩
  | refresh aid =>
    simp only [Task.answered, finishWith] at h
    split at h
    · cases h
      exact ⟨trivial, rfl⟩
    · split at h
      · cases h
        exact ⟨trivial, rfl⟩
      · cases h
        exact ⟨trivial, rfl⟩
  | signIn aid =>
    simp only [Task.answered, finishWith] at h
    split at h
    · split at h
      · cases h
        exact ⟨trivial, rfl⟩
      · cases h
        exact ⟨trivial, rfl⟩
    · cases h
  | finished result => cases h
  | _ => exact absurd ht id

theorem Task.step_harmless {db : Db} {e : Effect} {t t' : Task} {lockFree : Bool} {choice : Choice}
    (hlive : ∃ a ∈ db.accounts, a.deleted = false) (ht : t.Harmless)
    (h : t.step db lockFree choice = some (e, t')) : t'.Harmless ∧ db.apply e = db := by
  rcases Task.step_cases h with ⟨-, rfl, rfl⟩ | ⟨-, h⟩
  · refine ⟨trivial, ?_⟩
    rcases t.failed_cases with hf | hf <;> rw [hf] <;> rfl
  · exact Task.answered_harmless hlive ht h

/-- The roles of the users neither manage nor grant more than their roles before. -/
structure Contained (users : Uuid → Prop) (start w : World) : Prop where
  db : w.db = start.db
  tasks : ∀ t ∈ w.tasks, t.Harmless
  tokens : ∀ c ∈ w.issued, users c.sub → ¬ c.Manages ∧
    (c ∈ start.issued ∨ ∀ p ∈ c.permissions, ∃ r ∈ start.db.rolesOf c.sub, p ∈ r.permissions)

theorem Contained.step {users : Uuid → Prop} {start x y : World} {a : Action}
    (hsound : x.Sound) (hlive : ∃ a ∈ start.db.accounts, a.deleted = false)
    (hroles : ∀ u, users u → ∀ r ∈ start.db.rolesOf u, ¬ r.Manages)
    (h : Contained users start x) (hok : ByUsers users x a) (hs : x.step a = some y) :
    Contained users start y := by
  have htoken := World.issued_step hsound hs
  cases World.step_moved hs with
  | started claims req hissued =>
    refine ⟨h.db, fun t ht => ?_, h.tokens⟩
    rcases World.mem_of_append ht with ht | rfl
    · exact h.tasks t ht
    · exact Request.start_harmless req fun c hc => (h.tokens c (hissued c hc) (hok c hc)).1
  | boot user => exact absurd hok id
  | ran k choice t t' e ht hstep =>
    have hlive' : ∃ a ∈ x.db.accounts, a.deleted = false := by
      rw [h.db]
      exact hlive
    obtain ⟨ht', hdb⟩ := Task.step_harmless hlive' (h.tasks t (List.mem_of_getElem? ht)) hstep
    refine ⟨hdb.trans h.db, fun u hu => ?_, fun c hc hu => ?_⟩
    · rcases World.mem_of_set hu with hu | rfl
      · exact h.tasks u hu
      · exact ht'
    · rcases htoken with heq | ⟨new, heq, hnew, -⟩
      · exact h.tokens c (heq ▸ hc) hu
      · rcases List.mem_cons.mp (heq ▸ hc) with rfl | hold
        · have hgrant : ∀ p ∈ c.permissions, ∃ r ∈ start.db.rolesOf c.sub, p ∈ r.permissions := by
            intro p hp
            rw [← h.db]
            exact (hnew.permission p hp).2
          refine ⟨?_, Or.inr hgrant⟩
          rintro (hsuper | hp | hp)
          · have hheld := (hnew.super hsuper).1
            rw [h.db] at hheld
            exact hroles _ hu _ hheld (Or.inl (by decide))
          · obtain ⟨r, hr, hpr⟩ := hgrant _ hp
            exact hroles _ hu r hr (Or.inr (Or.inl hpr))
          · obtain ⟨r, hr, hpr⟩ := hgrant _ hp
            exact hroles _ hu r hr (Or.inr (Or.inr hpr))
        · exact h.tokens c hold hu

def aliceWorld : World := (exec World.step (fun _ _ => true) World.init aliceActs).getD World.init

def aliceToken : Claims :=
  { sub := 3, role := AccountRole.admin, permissions := ["dashboard_view"], roleName := "viewer" }

def becomeSuper : UpdateAccountRequest :=
  { name := none, email := none, department := none, position := none, roleIds := some [superRole.id] }

/-- `alice` tries to make a role and to give herself the role `super`, and logs in again. -/
def aliceTries : List Action :=
  [Action.request (some aliceToken) (Request.createRole "owner" ALL_PERMISSIONS),
    Action.request (some aliceToken) (Request.updateAccount 3 becomeSuper),
    Action.request none (Request.setup "mallory" "correct horse"),
    Action.request none (Request.login "alice")] ++ statements 5 2 ++ statements 6 1 ++
    [Action.run 6 (answered [viewerRole])]

def byAlice (_ : World) : Action → Bool
  | .request claims _ => claims.all fun c => c.sub = 3
  | .bootstrap _ => false
  | .run _ _ => true

end Veronex.Rbac
