import Mathlib.Data.List.Dedup
import Mathlib.Data.List.Sort
import Veronex.Domain.Values
import Veronex.Foundation.Pool
import Veronex.Foundation.Transition

/-! # Roles, accounts and what their tokens allow

The endpoints of `role_handlers.rs` and `account_handlers.rs` that write `roles`, `accounts` and
`account_roles`, the statements of `account_repository.rs` they run, the first-run `setup` and the
bootstrap account, and `resolve_roles_for_account` with the token that is made of it.

Every statement is a step of its own; a transaction is one from its first write to its commit, and
what it has read or locked before is kept in the task. Any statement may fail.
-/
namespace Veronex.Rbac
open Concurrency
set_option autoImplicit false

/-! ## Data -/

inductive AccountRole
  | super
  | admin
  deriving DecidableEq

def ALL_PERMISSIONS : List String :=
  ["dashboard_view", "api_test", "provider_manage", "key_manage", "account_manage", "audit_view",
    "settings_manage", "role_manage", "model_manage", "mcp_manage"]

inductive AppError
  | badRequest (message : String)
  | unauthorized (message : String)
  | forbidden (message : String)
  | conflict (message : String)
  | roleNotFound (rid : Uuid)
  | accountNotFound (aid : Uuid)
  | internal (message : String)
  deriving DecidableEq

structure Role where
  id : Uuid
  name : String
  permissions : List String
  isSystem : Bool
  deriving DecidableEq

/-- `deleted`: `deleted_at` is set. -/
structure Account where
  id : Uuid
  username : String
  name : String
  email : Option String
  department : Option String
  position : Option String
  isActive : Bool
  createdBy : Option Uuid
  deleted : Bool
  deriving DecidableEq

/-- A row of `account_roles`. The version tells a row from one that replaces it. -/
structure Assignment where
  version : ℕ
  accountId : Uuid
  roleId : Uuid
  deriving DecidableEq

structure Claims where
  sub : Uuid
  role : AccountRole
  permissions : List String
  roleName : String
  deriving DecidableEq

structure Db where
  roles : List Role
  accounts : List Account
  accountRoles : List Assignment
  /-- The next `Uuid::now_v7()`. -/
  nextId : Uuid
  nextVersion : ℕ

/-- The two rows that `init.sql` inserts. -/
def superRole : Role :=
  { id := 0, name := "super", isSystem := true,
    permissions := ["dashboard_view", "api_test", "provider_manage", "key_manage", "account_manage",
      "audit_view", "settings_manage", "role_manage", "model_manage", "mcp_manage"] }

def viewerRole : Role :=
  { id := 1, name := "viewer", isSystem := true, permissions := ["dashboard_view"] }

def Db.seeded : Db :=
  { roles := [superRole, viewerRole], accounts := [], accountRoles := [], nextId := 2, nextVersion := 0 }

/-! ## Checks of requests -/

def validatePermissions (perms : List String) : Except AppError Unit :=
  match perms.find? fun p => p ∉ ALL_PERMISSIONS with
  | some p => .error (.badRequest s!"invalid permission: {p}")
  | none => .ok ()

def validateRoleName (name : String) : Except AppError String :=
  let trimmed := String.ofList (trim name.toList)
  if trimmed.isEmpty || 64 < trimmed.utf8ByteSize then
    .error (.badRequest "role name must be 1-64 characters")
  else .ok trimmed

def validateUsername (username : String) : Except AppError Unit :=
  let trimmed := String.ofList (trim username.toList)
  if trimmed.isEmpty then .error (.badRequest "username must not be empty")
  else if 64 < trimmed.utf8ByteSize then .error (.badRequest "username too long")
  else if trimmed.toList.all fun c => c.isAlphanum || c == '_' || c == '.' || c == '-' then .ok ()
  else .error (.badRequest
    "username must contain only alphanumeric characters, underscores, dots, or hyphens")

def MIN_PASSWORD_LEN : ℕ := 8

/-- The extractors that `define_require_permission!` makes. -/
def requirePermission (permission : String) : Option Claims → Except AppError Claims
  | none => .error (.unauthorized "authentication required")
  | some claims =>
    if claims.role = AccountRole.super then .ok claims
    else if permission ∈ claims.permissions then .ok claims
    else .error (.forbidden s!"permission '{permission}' required")

/-! ## Queries -/

namespace Db
variable (db : Db)

def fetchRoleIdentity (rid : Uuid) : Option Role := db.roles.find? fun r => r.id = rid

def roleByName (name : String) : Option Role := db.roles.find? fun r => r.name = name

def getById (aid : Uuid) : Option Account := db.accounts.find? fun a => a.id = aid && !a.deleted

def getByUsername (username : String) : Option Account :=
  db.accounts.find? fun a => a.username = username && !a.deleted

def assigned (aid rid : Uuid) : Bool :=
  db.accountRoles.any fun x => x.accountId = aid && x.roleId = rid

/-- The join of `roles` and `account_roles` for one account. -/
def rolesOf (aid : Uuid) : List Role := db.roles.filter fun r => db.assigned aid r.id

/-- The live accounts that have the role. -/
def holders (rid : Uuid) : List Account :=
  db.accounts.filter fun a => !a.deleted && db.assigned a.id rid

/-- `SELECT id FROM roles WHERE id = ANY($1) LIMIT 200`, and the comparison of the lengths. -/
def rolesValid (roleIds : List Uuid) : Bool :=
  min 200 (db.roles.filter fun r => r.id ∈ roleIds).length = roleIds.length

/-- Every row that the foreign key of `account_roles` asks for is there. -/
def rolesExist (roleIds : List Uuid) : Bool := roleIds.all fun rid => db.roles.any fun r => r.id = rid

/-- What the join with `LIMIT 50` may answer: the rows are in no particular order. -/
def joinAnswers (aid : Uuid) (rows : List Role) : Bool :=
  decide rows.Nodup && rows.all (fun r => r ∈ db.rolesOf aid) &&
    decide (rows.length = min 50 (db.rolesOf aid).length)

/-! ## Writes -/

/-- `ON CONFLICT DO NOTHING` -/
def assign (aid : Uuid) : List Uuid → Db → Db
  | [], db => db
  | rid :: rids, db =>
    if db.assigned aid rid then assign aid rids db
    else assign aid rids { db with
      accountRoles := db.accountRoles ++ [{ version := db.nextVersion, accountId := aid, roleId := rid }]
      nextVersion := db.nextVersion + 1 }

/-- The versions of the account's rows, as a statement sees them. -/
def versionsOf (aid : Uuid) : List ℕ :=
  (db.accountRoles.filter fun x => x.accountId = aid).map Assignment.version

/-- Drops the rows that the statement had seen. -/
def unassign (aid : Uuid) (seen : List ℕ) : Db :=
  { db with accountRoles := db.accountRoles.filter fun x => !(x.accountId = aid && x.version ∈ seen) }

def insertAccount (account : Account) (roleIds : List Uuid) : Db :=
  assign account.id roleIds
    { db with accounts := db.accounts ++ [account], nextId := db.nextId + 1 }

def updateAccount (aid : Uuid) (f : Account → Account) : Db :=
  { db with accounts := db.accounts.map fun a => if a.id = aid then f a else a }

end Db

/-- What one statement or transaction does. -/
inductive Effect
  | read
  | insertRole (name : String) (permissions : List String)
  | updateRole (rid : Uuid) (name : Option String) (permissions : Option (List String))
  | deleteRole (rid : Uuid)
  | insertAccount (account : Account) (roleIds : List Uuid)
  | updateProfile (account : Account)
  | setRoles (aid : Uuid) (seen : List ℕ) (roleIds : List Uuid)
  | softDelete (aid : Uuid)
  | setActive (aid : Uuid) (active : Bool)
  | issue (claims : Claims)
  | lock
  | unlock
  /-- The commit of `setup`, which ends its lock. -/
  | commitSetup (account : Account) (roleId : Uuid)

def Db.apply (db : Db) : Effect → Db
  | .insertRole name permissions => { db with
      roles := db.roles ++ [{ id := db.nextId, name, permissions, isSystem := false }]
      nextId := db.nextId + 1 }
  | .updateRole rid name permissions => { db with
      roles := db.roles.map fun r => if r.id = rid then
        { r with name := name.getD r.name, permissions := permissions.getD r.permissions } else r }
  | .deleteRole rid => { db with
      roles := db.roles.filter fun r => r.id ≠ rid
      accountRoles := db.accountRoles.filter fun x => x.roleId ≠ rid }
  | .insertAccount account roleIds => db.insertAccount account roleIds
  | .updateProfile account => db.updateAccount account.id fun a =>
      { a with name := account.name, email := account.email,
               department := account.department, position := account.position }
  | .setRoles aid seen roleIds => Db.assign aid roleIds (db.unassign aid seen)
  | .softDelete aid => db.updateAccount aid fun a => { a with deleted := true }
  | .setActive aid active => db.updateAccount aid fun a => { a with isActive := active }
  | .commitSetup account roleId => db.insertAccount account [roleId]
  | .read | .issue _ | .lock | .unlock => db

/-! ## Tokens -/

structure ResolvedRole where
  permissions : List String
  name : String
  isSuper : Bool

/-- The elements of a `BTreeSet` in order. -/
def btreeSet (xs : List String) : List String := xs.dedup.insertionSort (· ≤ ·)

def isSuperRow (r : Role) : Bool := r.isSystem && r.name = "super"

/-- `resolve_roles_for_account` on the rows of the join. -/
def resolveRoles (rows : List Role) : Except AppError ResolvedRole :=
  if rows.isEmpty then .error (.internal "no roles assigned to account")
  else
    let isSuper := rows.any isSuperRow
    let allPerms := if isSuper then ALL_PERMISSIONS else rows.flatMap Role.permissions
    .ok { permissions := btreeSet allPerms
          name := if isSuper then "super" else (rows.head?.map Role.name).getD ""
          isSuper }

def issueAccessToken (aid : Uuid) (resolved : ResolvedRole) : Claims :=
  { sub := aid, role := if resolved.isSuper then AccountRole.super else AccountRole.admin,
    permissions := resolved.permissions, roleName := resolved.name }

/-! ## Endpoints -/

structure UpdateRoleRequest where
  name : Option String
  permissions : Option (List String)

structure CreateAccountRequest where
  username : String
  name : String
  email : Option String
  roleIds : List Uuid
  roleId : Option Uuid
  department : Option String
  position : Option String

structure UpdateAccountRequest where
  name : Option String
  email : Option String
  department : Option String
  position : Option String
  roleIds : Option (List Uuid)

/-- Where a call of an endpoint is: the statement it runs next. -/
inductive Task
  | createRole (name : String) (permissions : List String)
  | updateRoleFetch (rid : Uuid) (req : UpdateRoleRequest)
  | updateRoleWrite (rid : Uuid) (name : Option String) (permissions : Option (List String))
  | deleteRoleFetch (rid : Uuid)
  | deleteRoleCount (rid : Uuid) (name : String)
  | deleteRoleDelete (rid : Uuid)
  | createAccountCheck (creator : Uuid) (req : CreateAccountRequest)
  | createAccountInsert (creator : Uuid) (req : CreateAccountRequest) (roleIds : List Uuid)
  | updateAccountGet (aid : Uuid) (req : UpdateAccountRequest)
  | updateAccountWrite (account : Account) (roleIds : Option (List Uuid))
  | updateAccountCheck (aid : Uuid) (roleIds : List Uuid)
  | setRolesDelete (aid : Uuid) (roleIds : List Uuid)
  | setRolesInsert (aid : Uuid) (roleIds : List Uuid) (seen : List ℕ)
  | deleteAccountGet (aid : Uuid)
  | deleteAccountCascade (aid : Uuid)
  | setActive (aid : Uuid) (active : Bool)
  | setupLock (username : String)
  | setupCount (username : String)
  | setupRole (username : String)
  | setupInsert (username : String) (roleId : Uuid)
  | bootstrapLookup (user : String)
  | bootstrapRole (user : String)
  | bootstrapInsert (user : String) (roleId : Uuid)
  | login (username : String)
  | refresh (aid : Uuid)
  /-- `resolve_roles_for_account` and the token, at the end of login, refresh and setup. -/
  | signIn (aid : Uuid)
  | finished (result : Except AppError Unit)

/-- `fails`: the statement does. `verified`: the password is right. `rows`: the answer of the join. -/
structure Choice where
  fails : Bool
  verified : Bool
  rows : List Role

/-- What a failed statement leaves: `setup` gives its lock back. -/
def Task.failed : Task → Effect
  | .setupCount _ | .setupRole _ | .setupInsert _ _ => .unlock
  | _ => .read

def internalError : Task := .finished (.error (.internal "internal server error"))

def finishWith (e : AppError) : Option (Effect × Task) := some (.read, .finished (.error e))

/-- The account of `setup` and of the bootstrap. -/
def superAccount (db : Db) (username : String) : Account :=
  { id := db.nextId, username, name := "Super Admin", email := none, department := none,
    position := none, isActive := true, createdBy := none, deleted := false }

def newAccount (db : Db) (creator : Uuid) (req : CreateAccountRequest) : Account :=
  { id := db.nextId, username := req.username, name := req.name, email := req.email,
    department := req.department, position := req.position, isActive := true,
    createdBy := some creator, deleted := false }

/-- `username` is unique among all rows, the deleted ones too. -/
def Db.usernameTaken (db : Db) (username : String) : Bool :=
  db.accounts.any fun a => a.username = username

/-- The next statement of a task, one that is answered. -/
def Task.answered (db : Db) (lockFree : Bool) (choice : Choice) : Task → Option (Effect × Task)
  | .createRole name permissions =>
    if db.roles.any fun r => r.name = name then
      finishWith (.conflict s!"role '{name}' already exists")
    else some (.insertRole name permissions, .finished (.ok ()))
  | .updateRoleFetch rid req =>
    match db.fetchRoleIdentity rid with
    | none => finishWith (.roleNotFound rid)
    | some row =>
      if row.isSystem then finishWith (.forbidden "system roles cannot be modified")
      else match req.permissions.elim (.ok ()) validatePermissions with
        | .error e => finishWith e
        | .ok () =>
          if req.name.isNone && req.permissions.isNone then some (.read, .finished (.ok ()))
          else match req.name with
            | none => some (.read, .updateRoleWrite rid none req.permissions)
            | some name => match validateRoleName name with
              | .error e => finishWith e
              | .ok trimmed => some (.read, .updateRoleWrite rid (some trimmed) req.permissions)
  | .updateRoleWrite rid name permissions =>
    if name.any fun n => db.roles.any fun r => r.id ≠ rid && r.name = n then
      finishWith (.conflict "role name already exists")
    else some (.updateRole rid name permissions, .finished (.ok ()))
  | .deleteRoleFetch rid =>
    match db.fetchRoleIdentity rid with
    | none => finishWith (.roleNotFound rid)
    | some row =>
      if row.isSystem then finishWith (.forbidden "system roles cannot be deleted")
      else some (.read, .deleteRoleCount rid row.name)
  | .deleteRoleCount rid name =>
    let count := (db.holders rid).length
    if 0 < count then
      finishWith (.conflict s!"cannot delete role '{name}': {count} account(s) still assigned")
    else some (.read, .deleteRoleDelete rid)
  | .deleteRoleDelete rid => some (.deleteRole rid, .finished (.ok ()))
  | .createAccountCheck creator req =>
    if !req.roleIds.isEmpty then
      if db.rolesValid req.roleIds then some (.read, .createAccountInsert creator req req.roleIds)
      else finishWith (.badRequest "one or more invalid role_ids")
    else match req.roleId with
      | some rid =>
        if (db.fetchRoleIdentity rid).isSome then some (.read, .createAccountInsert creator req [rid])
        else finishWith (.badRequest "invalid role_id")
      | none => match db.roleByName "viewer" with
        | some row => some (.read, .createAccountInsert creator req [row.id])
        | none => finishWith (.internal "viewer role not found")
  | .createAccountInsert creator req roleIds =>
    -- the context "failed to create account" hides the text of the unique violation
    if db.usernameTaken req.username || !db.rolesExist roleIds then
      finishWith (.internal "failed to create account")
    else some (.insertAccount (newAccount db creator req) roleIds, .finished (.ok ()))
  | .updateAccountGet aid req =>
    match db.getById aid with
    | none => finishWith (.accountNotFound aid)
    | some account => some (.read, .updateAccountWrite { account with
        name := req.name.getD account.name
        email := req.email <|> account.email
        department := req.department <|> account.department
        position := req.position <|> account.position } req.roleIds)
  | .updateAccountWrite account roleIds =>
    some (.updateProfile account, match roleIds with
      | none => .finished (.ok ())
      | some [] => .finished (.error (.badRequest "at least one role is required"))
      | some (rid :: rids) => .updateAccountCheck account.id (rid :: rids))
  | .updateAccountCheck aid roleIds =>
    if db.rolesValid roleIds then some (.read, .setRolesDelete aid roleIds)
    else finishWith (.badRequest "one or more invalid role_ids")
  | .setRolesDelete aid roleIds => some (.read, .setRolesInsert aid roleIds (db.versionsOf aid))
  | .setRolesInsert aid roleIds seen =>
    if db.rolesExist roleIds then some (.setRoles aid seen roleIds, .finished (.ok ()))
    else finishWith (.internal "failed to assign roles")
  | .deleteAccountGet aid =>
    match db.getById aid with
    | none => finishWith (.accountNotFound aid)
    | some account => some (.read, .deleteAccountCascade account.id)
  | .deleteAccountCascade aid => some (.softDelete aid, .finished (.ok ()))
  | .setActive aid active => some (.setActive aid active, .finished (.ok ()))
  | .setupLock username => if lockFree then some (.lock, .setupCount username) else none
  | .setupCount username =>
    if db.accounts.any fun a => !a.deleted then
      some (.unlock, .finished (.error (.conflict "setup already completed")))
    else some (.read, .setupRole username)
  | .setupRole username =>
    match db.roleByName "super" with
    | some row => some (.read, .setupInsert username row.id)
    | none => some (.unlock, .finished (.error (.internal "super role not found")))
  | .setupInsert username roleId =>
    if db.usernameTaken username || !db.rolesExist [roleId] then
      some (.unlock, .finished (.error (.internal "insert account")))
    else some (.commitSetup (superAccount db username) roleId, .signIn db.nextId)
  | .bootstrapLookup user =>
    if (db.getByUsername user).isSome then some (.read, .finished (.ok ()))
    else some (.read, .bootstrapRole user)
  | .bootstrapRole user =>
    match db.roleByName "super" with
    | some row => some (.read, .bootstrapInsert user row.id)
    | none => some (.read, .finished (.ok ()))
  | .bootstrapInsert user roleId =>
    if db.usernameTaken user || !db.rolesExist [roleId] then some (.read, .finished (.ok ()))
    else some (.insertAccount (superAccount db user) [roleId], .finished (.ok ()))
  | .login username =>
    match db.getByUsername username with
    | none => finishWith (.unauthorized "invalid credentials")
    | some account =>
      if !account.isActive then finishWith (.unauthorized "account is disabled")
      else if !choice.verified then finishWith (.unauthorized "invalid credentials")
      else some (.read, .signIn account.id)
  | .refresh aid =>
    match db.getById aid with
    | none => finishWith (.unauthorized "account not found")
    | some account =>
      if !account.isActive then finishWith (.unauthorized "account is disabled")
      else some (.read, .signIn account.id)
  | .signIn aid =>
    if db.joinAnswers aid choice.rows then
      match resolveRoles choice.rows with
      | .error e => finishWith e
      | .ok resolved => some (.issue (issueAccessToken aid resolved), .finished (.ok ()))
    else none
  | .finished _ => none

def Task.isFinished : Task → Bool
  | .finished _ => true
  | _ => false

def Task.step (db : Db) (lockFree : Bool) (choice : Choice) (t : Task) : Option (Effect × Task) :=
  if choice.fails then if t.isFinished then none else some (t.failed, internalError)
  else t.answered db lockFree choice

/-! ## The server -/

inductive Request
  | createRole (name : String) (permissions : List String)
  | updateRole (rid : Uuid) (req : UpdateRoleRequest)
  | deleteRole (rid : Uuid)
  | createAccount (req : CreateAccountRequest)
  | updateAccount (aid : Uuid) (req : UpdateAccountRequest)
  | deleteAccount (aid : Uuid)
  | setAccountActive (aid : Uuid) (active : Bool)
  | setup (username password : String)
  | login (username : String)
  /-- With a refresh token of the account. -/
  | refresh (aid : Uuid)

def reject (e : AppError) : Task := .finished (.error e)

/-- What happens to a request before its first statement. -/
def Request.start (claims : Option Claims) : Request → Task
  | .createRole name permissions =>
    match requirePermission "role_manage" claims with
    | .error e => reject e
    | .ok _ => match validateRoleName name with
      | .error e => reject e
      | .ok trimmed => match validatePermissions permissions with
        | .error e => reject e
        | .ok () => .createRole trimmed permissions
  | .updateRole rid req =>
    match requirePermission "role_manage" claims with
    | .error e => reject e
    | .ok _ => .updateRoleFetch rid req
  | .deleteRole rid =>
    match requirePermission "role_manage" claims with
    | .error e => reject e
    | .ok _ => .deleteRoleFetch rid
  | .createAccount req =>
    match requirePermission "account_manage" claims with
    | .error e => reject e
    | .ok granted => match validateUsername req.username with
      | .error e => reject e
      | .ok () => .createAccountCheck granted.sub req
  | .updateAccount aid req =>
    match requirePermission "account_manage" claims with
    | .error e => reject e
    | .ok _ => .updateAccountGet aid req
  | .deleteAccount aid =>
    match requirePermission "account_manage" claims with
    | .error e => reject e
    | .ok _ => .deleteAccountGet aid
  | .setAccountActive aid active =>
    match requirePermission "account_manage" claims with
    | .error e => reject e
    | .ok _ => .setActive aid active
  | .setup username password =>
    match validateUsername username with
    | .error e => reject e
    | .ok () =>
      if password.utf8ByteSize < MIN_PASSWORD_LEN then
        reject (.badRequest "password must be at least 8 characters long")
      else .setupLock (String.ofList (trim username.toList))
  | .login username => .login username
  | .refresh aid => .refresh aid

/-- `issued`: the tokens that were ever made, the last first. `setupLock`: the task that holds the
advisory lock. -/
structure World where
  db : Db
  tasks : List Task
  issued : List Claims
  setupLock : Option ℕ

inductive Action
  | request (claims : Option Claims) (req : Request)
  | bootstrap (user : String)
  | run (k : ℕ) (choice : Choice)

namespace World

def init : World := { db := Db.seeded, tasks := [], issued := [], setupLock := none }

def apply (w : World) (k : ℕ) (effect : Effect) : World :=
  { w with
    db := w.db.apply effect
    issued := match effect with
      | .issue claims => claims :: w.issued
      | _ => w.issued
    setupLock := match effect with
      | .lock => some k
      | .unlock | .commitSetup _ _ => none
      | _ => w.setupLock }

def step (w : World) : Action → Option World
  | .request claims req =>
    if claims.all fun c => c ∈ w.issued then some { w with tasks := w.tasks ++ [req.start claims] }
    else none
  | .bootstrap user => some { w with tasks := w.tasks ++ [.bootstrapLookup user] }
  | .run k choice =>
    match w.tasks[k]? with
    | none => none
    | some t =>
      match t.step w.db w.setupLock.isNone choice with
      | none => none
      | some (effect, t') => some { w.apply k effect with tasks := w.tasks.set k t' }

end World

end Veronex.Rbac
