import Mathlib.Data.Finset.Union
import Mathlib.Data.Finset.Dedup
import Ucser.Core.Types
import Ucser.Lib.Dict
import Ucser.Lib.Transition

/-!
# Roles and permissions: `core/rbac_system.py`

`RBACEngine` keeps the users, whose roles are granted and revoked and who can be deactivated.
`RBACDecorator` asks for the permissions of the user in a context.  Whether the user is active
it does not ask.

* `Permission`, `PredefinedRole`, `defaultRoles` — the tables.
* `User`, `RBACEngine` and its methods, `RBACDecorator.wrapper` — the engine and the check.
* `rbac` — the engine under a sequence of operations.
* `get?_exec` — what an operation does to a user.
* `Holds`, `Deactivated`, `Carries` — what a history says about a user; `mem_roles_iff`,
  `inactive_iff`, `mem_custom_iff` — **the engine keeps what the history says**.
* `decided_iff` — **when a call is decided by the history**: unless the user has been
  deactivated and has the permissions all the same.
-/

namespace Ucser
namespace Rbac

/-! ## The tables -/

/-- `Permission`. -/
inductive Permission where
  | workflowCreate
  | workflowRead
  | workflowUpdate
  | workflowDelete
  | workflowExecute
  | workflowStop
  | executionView
  | executionLogs
  | policyRead
  | policyCreate
  | policyUpdate
  | policyDelete
  | auditRead
  | auditExport
  | secretsRead
  | secretsWrite
  | adminUsers
  | adminConfig
  | adminSystem
  deriving DecidableEq

namespace Permission

/-- The members. -/
def all : List Permission :=
  [workflowCreate, workflowRead, workflowUpdate, workflowDelete, workflowExecute, workflowStop,
    executionView, executionLogs, policyRead, policyCreate, policyUpdate, policyDelete, auditRead,
    auditExport, secretsRead, secretsWrite, adminUsers, adminConfig, adminSystem]

/-- The name and the value of a member. -/
def entry : Permission → String × String
  | workflowCreate => ("WORKFLOW_CREATE", "workflow:create")
  | workflowRead => ("WORKFLOW_READ", "workflow:read")
  | workflowUpdate => ("WORKFLOW_UPDATE", "workflow:update")
  | workflowDelete => ("WORKFLOW_DELETE", "workflow:delete")
  | workflowExecute => ("WORKFLOW_EXECUTE", "workflow:execute")
  | workflowStop => ("WORKFLOW_STOP", "workflow:stop")
  | executionView => ("EXECUTION_VIEW", "execution:view")
  | executionLogs => ("EXECUTION_LOGS", "execution:logs")
  | policyRead => ("POLICY_READ", "policy:read")
  | policyCreate => ("POLICY_CREATE", "policy:create")
  | policyUpdate => ("POLICY_UPDATE", "policy:update")
  | policyDelete => ("POLICY_DELETE", "policy:delete")
  | auditRead => ("AUDIT_READ", "audit:read")
  | auditExport => ("AUDIT_EXPORT", "audit:export")
  | secretsRead => ("SECRETS_READ", "secrets:read")
  | secretsWrite => ("SECRETS_WRITE", "secrets:write")
  | adminUsers => ("ADMIN_USERS", "admin:users")
  | adminConfig => ("ADMIN_CONFIG", "admin:config")
  | adminSystem => ("ADMIN_SYSTEM", "admin:system")

/-- `str(perm)`. -/
def str (perm : Permission) : String := "Permission." ++ perm.entry.1

/-- `repr(perm)`. -/
def repr (perm : Permission) : String :=
  "<Permission." ++ perm.entry.1 ++ ": '" ++ perm.entry.2 ++ "'>"

end Permission

/-- `PredefinedRole`. -/
inductive PredefinedRole where
  | viewer
  | operator
  | developer
  | securityAdmin
  | systemAdmin
  deriving DecidableEq

open Permission in
/-- `DEFAULT_ROLES[role].permissions`. -/
def defaultRoles : PredefinedRole → Finset Permission
  | .viewer => {workflowRead, executionView, executionLogs, auditRead}
  | .operator =>
      {workflowRead, workflowExecute, workflowStop, executionView, executionLogs, policyRead}
  | .developer =>
      {workflowCreate, workflowRead, workflowUpdate, workflowExecute, workflowStop, executionView,
        executionLogs, policyRead, secretsRead}
  | .securityAdmin =>
      {policyRead, policyCreate, policyUpdate, policyDelete, auditRead, auditExport, secretsRead,
        secretsWrite, workflowRead, executionView}
  | .systemAdmin => all.toFinset

/-! ## Accounts -/

/-- `User`. -/
structure User where
  userId : String
  username : String
  email : String
  roles : Finset PredefinedRole
  customPermissions : Finset Permission := ∅
  isActive : Bool := true

/-- `ServiceAccount`. -/
structure ServiceAccount where
  accountId : String
  name : String
  roles : Finset PredefinedRole
  apiKeyHash : String

/-- The permissions of a set of roles. -/
def permissionsOf (roles : Finset PredefinedRole) : Finset Permission := roles.biUnion defaultRoles

/-- `User.get_all_permissions`. -/
def User.getAllPermissions (u : User) : Finset Permission :=
  u.customPermissions ∪ permissionsOf u.roles

/-- `ServiceAccount.get_all_permissions`. -/
def ServiceAccount.getAllPermissions (a : ServiceAccount) : Finset Permission :=
  permissionsOf a.roles

/-- `AccessContext`. -/
structure AccessContext where
  user : Option User := none
  serviceAccount : Option ServiceAccount := none

/-- `get_permissions`. -/
def AccessContext.getPermissions (ctx : AccessContext) : Finset Permission :=
  match ctx.user, ctx.serviceAccount with
  | some u, _ => u.getAllPermissions
  | none, some a => a.getAllPermissions
  | none, none => ∅

/-! ## The engine -/

/-- `RBACEngine`. -/
structure RBACEngine where
  users : Dict String User := Dict.empty
  serviceAccounts : Dict String ServiceAccount := Dict.empty

/-- `set(roles or [PredefinedRole.VIEWER])`. -/
def rolesOrViewer (roles : Option (List PredefinedRole)) : Finset PredefinedRole :=
  match roles with
  | some (role :: rest) => (role :: rest).toFinset
  | _ => {.viewer}

namespace RBACEngine

variable (e : RBACEngine)

/-- `create_user`. -/
def createUser (userId username email : String) (roles : Option (List PredefinedRole)) :
    Except PyError RBACEngine :=
  if userId ∈ e.users.keys then .error (.valueError ("User " ++ userId ++ " already exists"))
  else
    let user : User :=
      { userId := userId, username := username, email := email, roles := rolesOrViewer roles }
    .ok { e with users := e.users.insert userId user }

/-- `create_service_account`, with the hash of the key it draws. -/
def createServiceAccount (accountId name apiKeyHash : String)
    (roles : Option (List PredefinedRole)) : Except PyError RBACEngine :=
  if accountId ∈ e.serviceAccounts.keys then
    .error (.valueError ("Service account " ++ accountId ++ " already exists"))
  else
    let account : ServiceAccount :=
      { accountId := accountId, name := name, roles := rolesOrViewer roles
        apiKeyHash := apiKeyHash }
    .ok { e with serviceAccounts := e.serviceAccounts.insert accountId account }

/-- A change of a user, and whether there is one. -/
def changeUser (userId : String) (change : User → User) : Bool × RBACEngine :=
  if userId ∈ e.users.keys then (true, { e with users := e.users.modify userId change })
  else (false, e)

/-- `grant_role`. -/
def grantRole (userId : String) (role : PredefinedRole) : Bool × RBACEngine :=
  e.changeUser userId fun u => { u with roles := insert role u.roles }

/-- `revoke_role`. -/
def revokeRole (userId : String) (role : PredefinedRole) : Bool × RBACEngine :=
  e.changeUser userId fun u => { u with roles := u.roles.erase role }

/-- `deactivate_user`. -/
def deactivateUser (userId : String) : Bool × RBACEngine :=
  e.changeUser userId fun u => { u with isActive := false }

end RBACEngine

/-! ## The checks -/

/-- A list as it is printed. -/
def listText (perms : List Permission) : String :=
  "[" ++ String.intercalate ", " (perms.map Permission.repr) ++ "]"

/-- `verify_permission`. -/
def verifyPermission (ctx : AccessContext) (required : Permission) : Bool × Option String :=
  if required ∉ ctx.getPermissions then
    (false, some ("Permission denied: " ++ required.str ++ " required"))
  else (true, none)

/-- `verify_any_permission`. -/
def verifyAnyPermission (ctx : AccessContext) (required : List Permission) :
    Bool × Option String :=
  if ¬ ∃ p ∈ required, p ∈ ctx.getPermissions then
    (false, some ("Permission denied: one of " ++ listText required ++ " required"))
  else (true, none)

/-- `verify_all_permissions`. -/
def verifyAllPermissions (ctx : AccessContext) (required : List Permission) :
    Bool × Option String :=
  let missing := required.filter (· ∉ ctx.getPermissions)
  if missing ≠ [] then
    (false, some ("Permission denied: " ++ listText missing ++ " required"))
  else (true, none)

/-- `check_user_active`. -/
def checkUserActive (u : User) : Bool × Option String :=
  if u.isActive then (true, none) else (false, some "User account is deactivated")

/-- `RBACDecorator`. -/
structure RBACDecorator where
  requiredPerms : List Permission
  requireAll : Bool := false

/-- A `PermissionError` and its argument. -/
structure PermissionError where
  reason : Option String

/-- The wrapper that `RBACDecorator.__call__` returns. -/
def RBACDecorator.wrapper {ρ : Type} (d : RBACDecorator) (func : AccessContext → ρ)
    (ctx : AccessContext) : Except PermissionError ρ :=
  let (allowed, reason) :=
    if d.requireAll then verifyAllPermissions ctx d.requiredPerms
    else verifyAnyPermission ctx d.requiredPerms
  if allowed then .ok (func ctx) else .error ⟨reason⟩

/-! ## Operations -/

/-- What is done to an engine, and to the permissions of a user, which are an attribute
anybody can set. -/
inductive Operation where
  | createUser (userId username email : String) (roles : Option (List PredefinedRole))
  | createServiceAccount (accountId name apiKeyHash : String)
      (roles : Option (List PredefinedRole))
  | grantRole (userId : String) (role : PredefinedRole)
  | revokeRole (userId : String) (role : PredefinedRole)
  | deactivateUser (userId : String)
  | setCustomPermissions (userId : String) (perms : Finset Permission)

namespace Operation

/-- What the operation leaves of the engine. -/
def apply (e : RBACEngine) : Operation → RBACEngine
  | createUser userId username email roles =>
      (e.createUser userId username email roles).toOption.getD e
  | createServiceAccount accountId name apiKeyHash roles =>
      (e.createServiceAccount accountId name apiKeyHash roles).toOption.getD e
  | grantRole userId role => (e.grantRole userId role).2
  | revokeRole userId role => (e.revokeRole userId role).2
  | deactivateUser userId => (e.deactivateUser userId).2
  | setCustomPermissions userId perms =>
      (e.changeUser userId fun u => { u with customPermissions := perms }).2

end Operation

/-- The engine under operations. -/
def rbac : System RBACEngine Operation where
  step e op := some (op.apply e)

/-- The engine after a history. -/
def after (history : List Operation) : RBACEngine := rbac.run {} history

/-! ## What an operation does to a user -/

/-- A user after an operation, `none` for one that does not exist. -/
def Operation.onUser (op : Operation) (u : String) (user : Option User) : Option User :=
  match op with
  | createUser userId username email roles =>
      if u = userId then
        some (user.getD { userId := userId, username := username, email := email,
                          roles := rolesOrViewer roles })
      else user
  | createServiceAccount _ _ _ _ => user
  | grantRole userId role =>
      if u = userId then user.map fun v => { v with roles := insert role v.roles } else user
  | revokeRole userId role =>
      if u = userId then user.map fun v => { v with roles := v.roles.erase role } else user
  | deactivateUser userId =>
      if u = userId then user.map fun v => { v with isActive := false } else user
  | setCustomPermissions userId perms =>
      if u = userId then user.map fun v => { v with customPermissions := perms } else user

/-- The user an operation is about. -/
def Operation.target : Operation → Option String
  | createUser userId _ _ _ => some userId
  | createServiceAccount _ _ _ _ => none
  | grantRole userId _ => some userId
  | revokeRole userId _ => some userId
  | deactivateUser userId => some userId
  | setCustomPermissions userId _ => some userId

theorem Operation.onUser_of_ne {op : Operation} {u : String} (h : op.target ≠ some u)
    (user : Option User) : op.onUser u user = user := by
  cases op with
  | createServiceAccount accountId name apiKeyHash roles => rfl
  | createUser userId username email roles => exact if_neg fun hu => h (congrArg some hu.symm)
  | grantRole userId role => exact if_neg fun hu => h (congrArg some hu.symm)
  | revokeRole userId role => exact if_neg fun hu => h (congrArg some hu.symm)
  | deactivateUser userId => exact if_neg fun hu => h (congrArg some hu.symm)
  | setCustomPermissions userId perms => exact if_neg fun hu => h (congrArg some hu.symm)

theorem get?_changeUser (e : RBACEngine) (userId : String) (change : User → User) (u : String) :
    (e.changeUser userId change).2.users.get? u =
      if u = userId then (e.users.get? u).map change else e.users.get? u := by
  unfold RBACEngine.changeUser
  by_cases h : userId ∈ e.users.keys
  · rw [if_pos h]
    exact Dict.get?_modify _ _ _ _
  · rw [if_neg h]
    by_cases hu : u = userId
    · subst hu
      rw [if_pos rfl, Dict.get?_eq_none_iff.mpr h]
      rfl
    · rw [if_neg hu]

/-- **What an operation does to a user.** -/
theorem get?_exec (e : RBACEngine) (op : Operation) (u : String) :
    (rbac.exec e op).users.get? u = op.onUser u (e.users.get? u) := by
  cases op with
  | createUser userId username email roles =>
      show ((e.createUser userId username email roles).toOption.getD e).users.get? u =
        if u = userId then some _ else e.users.get? u
      unfold RBACEngine.createUser
      by_cases h : userId ∈ e.users.keys
      · rw [if_pos h]
        by_cases hu : u = userId
        · subst hu
          obtain ⟨user, huser⟩ := Dict.mem_keys_iff.mp h
          rw [if_pos rfl, huser]
          exact huser
        · rw [if_neg hu]
          rfl
      · rw [if_neg h]
        refine (Dict.get?_insert _ _ _ _).trans ?_
        by_cases hu : u = userId
        · subst hu
          rw [if_pos rfl, if_pos rfl, Dict.get?_eq_none_iff.mpr h, Option.getD_none]
        · rw [if_neg hu, if_neg hu]
  | createServiceAccount accountId name apiKeyHash roles =>
      show ((e.createServiceAccount accountId name apiKeyHash roles).toOption.getD e).users.get? u
        = _
      unfold RBACEngine.createServiceAccount
      by_cases h : accountId ∈ e.serviceAccounts.keys
      · rw [if_pos h]
        rfl
      · rw [if_neg h]
        rfl
  | grantRole userId role => exact get?_changeUser e userId _ u
  | revokeRole userId role => exact get?_changeUser e userId _ u
  | deactivateUser userId => exact get?_changeUser e userId _ u
  | setCustomPermissions userId perms => exact get?_changeUser e userId _ u

/-! ## What a history says -/

/-- The operation creates the user with the role, or grants it. -/
def Gives (u : String) (role : PredefinedRole) (e : RBACEngine) (op : Operation) : Prop :=
  (∃ username email roles, op = .createUser u username email roles ∧ u ∉ e.users.keys ∧
    role ∈ rolesOrViewer roles) ∨ op = .grantRole u role ∧ u ∈ e.users.keys

/-- The user was created with the role or granted it, and has not had it revoked since. -/
def Holds (history : List Operation) (u : String) (role : PredefinedRole) : Prop :=
  rbac.Since (Gives u role) (· = .revokeRole u role) {} history

/-- The user has been deactivated. -/
def Deactivated (history : List Operation) (u : String) : Prop :=
  rbac.Since (fun e op => op = .deactivateUser u ∧ u ∈ e.users.keys) (fun _ => False) {} history

/-- The permission is among those last set for the user. -/
def Carries (history : List Operation) (u : String) (perm : Permission) : Prop :=
  rbac.Since
    (fun e op => ∃ perms, op = .setCustomPermissions u perms ∧ u ∈ e.users.keys ∧ perm ∈ perms)
    (fun op => ∃ perms, op = .setCustomPermissions u perms ∧ perm ∉ perms) {} history

/-- The user has the permission, by the history. -/
def Entitled (history : List Operation) (u : String) (perm : Permission) : Prop :=
  Carries history u perm ∨ ∃ role, Holds history u role ∧ perm ∈ defaultRoles role

/-- What the decorator asks for is among the permissions. -/
def RBACDecorator.Satisfied (d : RBACDecorator) (has : Permission → Prop) : Prop :=
  if d.requireAll then ∀ p ∈ d.requiredPerms, has p else ∃ p ∈ d.requiredPerms, has p

/-! ## The engine keeps what the history says -/

/-- Some user has the property. -/
def UserHas (u : String) (P : User → Prop) (e : RBACEngine) : Prop :=
  ∃ user, e.users.get? u = some user ∧ P user

/-- **A property of users that operations open and close holds as the history says**, when
the operations about a user do so to the user. -/
theorem userHas_iff_since {u : String} {P : User → Prop}
    {opens : RBACEngine → Operation → Prop} {closes : Operation → Prop}
    (hopens : ∀ e op, opens e op → op.target = some u)
    (hcloses : ∀ op, closes op → op.target = some u)
    (h : ∀ (e : RBACEngine) op, op.target = some u →
      ((∃ user, op.onUser u (e.users.get? u) = some user ∧ P user) ↔
        ¬ closes op ∧ (opens e op ∨ UserHas u P e))) (history : List Operation) :
    UserHas u P (after history) ↔ rbac.Since opens closes {} history := by
  refine System.run_iff_since (I := fun _ => True) (fun _ _ _ _ _ => trivial) (fun e op _ => ?_)
    trivial ?_ history
  · rw [UserHas, get?_exec]
    by_cases htarget : op.target = some u
    · exact h e op htarget
    · rw [Operation.onUser_of_ne htarget]
      exact ⟨fun hhas => ⟨mt (hcloses op) htarget, Or.inr hhas⟩,
        fun hboth => hboth.2.resolve_left (mt (hopens e op) htarget)⟩
  · rintro ⟨user, huser, -⟩
    exact absurd huser (by simp [Dict.get?, Dict.empty])

/-- The ids of the engine are those of its users. -/
theorem mem_keys_iff {e : RBACEngine} {u : String} :
    u ∈ e.users.keys ↔ ∃ user, e.users.get? u = some user :=
  Dict.mem_keys_iff

/-- **The roles of a user** are those the history says. -/
theorem mem_roles_iff (history : List Operation) (u : String) (role : PredefinedRole) :
    UserHas u (role ∈ ·.roles) (after history) ↔ Holds history u role := by
  refine userHas_iff_since ?_ ?_ (fun e op htarget => ?_) history
  · rintro e op (⟨username, email, roles, rfl, -⟩ | ⟨rfl, -⟩)
    · rfl
    · rfl
  · rintro op rfl
    rfl
  · cases op with
    | createServiceAccount accountId name apiKeyHash roles =>
        exact absurd htarget (by simp [Operation.target])
    | createUser userId username email roles =>
        obtain rfl := Option.some.inj htarget
        cases huser : e.users.get? userId with
        | none => simp [Operation.onUser, Gives, UserHas, mem_keys_iff, huser]
        | some user => simp [Operation.onUser, Gives, UserHas, mem_keys_iff, huser]
    | grantRole userId role' =>
        obtain rfl := Option.some.inj htarget
        cases huser : e.users.get? userId with
        | none => simp [Operation.onUser, Gives, UserHas, mem_keys_iff, huser]
        | some user => simp [Operation.onUser, Gives, UserHas, mem_keys_iff, huser, eq_comm]
    | revokeRole userId role' =>
        obtain rfl := Option.some.inj htarget
        cases huser : e.users.get? userId with
        | none => simp [Operation.onUser, Gives, UserHas, huser]
        | some user => simp [Operation.onUser, Gives, UserHas, huser, eq_comm]
    | deactivateUser userId =>
        obtain rfl := Option.some.inj htarget
        simp [Operation.onUser, Gives, UserHas]
    | setCustomPermissions userId perms =>
        obtain rfl := Option.some.inj htarget
        simp [Operation.onUser, Gives, UserHas]

/-- **A user is inactive** after having been deactivated. -/
theorem inactive_iff (history : List Operation) (u : String) :
    UserHas u (·.isActive = false) (after history) ↔ Deactivated history u := by
  refine userHas_iff_since ?_ (fun _ h => h.elim) (fun e op htarget => ?_) history
  · rintro e op ⟨rfl, -⟩
    rfl
  · cases op with
    | createServiceAccount accountId name apiKeyHash roles =>
        exact absurd htarget (by simp [Operation.target])
    | createUser userId username email roles =>
        obtain rfl := Option.some.inj htarget
        cases huser : e.users.get? userId with
        | none => simp [Operation.onUser, UserHas, huser]
        | some user => simp [Operation.onUser, UserHas, huser]
    | grantRole userId role =>
        obtain rfl := Option.some.inj htarget
        simp [Operation.onUser, UserHas]
    | revokeRole userId role =>
        obtain rfl := Option.some.inj htarget
        simp [Operation.onUser, UserHas]
    | deactivateUser userId =>
        obtain rfl := Option.some.inj htarget
        cases huser : e.users.get? userId with
        | none => simp [Operation.onUser, UserHas, mem_keys_iff, huser]
        | some user => simp [Operation.onUser, UserHas, mem_keys_iff, huser]
    | setCustomPermissions userId perms =>
        obtain rfl := Option.some.inj htarget
        simp [Operation.onUser, UserHas]

/-- **The custom permissions of a user** are those last set. -/
theorem mem_custom_iff (history : List Operation) (u : String) (perm : Permission) :
    UserHas u (perm ∈ ·.customPermissions) (after history) ↔ Carries history u perm := by
  refine userHas_iff_since ?_ ?_ (fun e op htarget => ?_) history
  · rintro e op ⟨perms, rfl, -⟩
    rfl
  · rintro op ⟨perms, rfl, -⟩
    rfl
  · cases op with
    | createServiceAccount accountId name apiKeyHash roles =>
        exact absurd htarget (by simp [Operation.target])
    | createUser userId username email roles =>
        obtain rfl := Option.some.inj htarget
        cases huser : e.users.get? userId with
        | none => simp [Operation.onUser, UserHas, huser]
        | some user => simp [Operation.onUser, UserHas, huser]
    | grantRole userId role =>
        obtain rfl := Option.some.inj htarget
        simp [Operation.onUser, UserHas]
    | revokeRole userId role =>
        obtain rfl := Option.some.inj htarget
        simp [Operation.onUser, UserHas]
    | deactivateUser userId =>
        obtain rfl := Option.some.inj htarget
        simp [Operation.onUser, UserHas]
    | setCustomPermissions userId perms =>
        obtain rfl := Option.some.inj htarget
        cases huser : e.users.get? userId with
        | none => simp [Operation.onUser, UserHas, mem_keys_iff, huser]
        | some user =>
            simp [Operation.onUser, UserHas, mem_keys_iff, huser]
            by_cases hp : perm ∈ perms <;> simp [hp]

/-! ## What the decorator decides -/

theorem mem_getAllPermissions {user : User} {p : Permission} :
    p ∈ user.getAllPermissions ↔
      p ∈ user.customPermissions ∨ ∃ role ∈ user.roles, p ∈ defaultRoles role := by
  simp [User.getAllPermissions, permissionsOf]

theorem userHas_iff {e : RBACEngine} {u : String} {user : User} (h : e.users.get? u = some user)
    (P : User → Prop) : UserHas u P e ↔ P user := by
  constructor
  · rintro ⟨user', huser', hP⟩
    rwa [Option.some.inj (h.symm.trans huser')]
  · exact fun hP => ⟨user, h, hP⟩

/-- **The permissions of a user** are those the history says. -/
theorem mem_permissions_iff {history : List Operation} {u : String} {user : User}
    (h : (after history).users.get? u = some user) (p : Permission) :
    p ∈ user.getAllPermissions ↔ Entitled history u p := by
  rw [mem_getAllPermissions, Entitled, ← mem_custom_iff, userHas_iff h]
  refine or_congr_right (exists_congr fun role => and_congr_left fun _ => ?_)
  rw [← mem_roles_iff, userHas_iff h]

/-- **What the wrapper does**: it asks for the permissions, and for nothing else. -/
theorem wrapper_cases {ρ : Type} (d : RBACDecorator) (func : AccessContext → ρ)
    (ctx : AccessContext) :
    d.Satisfied (· ∈ ctx.getPermissions) ∧ d.wrapper func ctx = .ok (func ctx) ∨
      ¬ d.Satisfied (· ∈ ctx.getPermissions) ∧ ∃ e, d.wrapper func ctx = .error e := by
  unfold RBACDecorator.wrapper RBACDecorator.Satisfied
  cases d.requireAll with
  | true =>
      simp only [if_true]
      by_cases hall : ∀ p ∈ d.requiredPerms, p ∈ ctx.getPermissions
      · have hmissing : d.requiredPerms.filter (· ∉ ctx.getPermissions) = [] := by
          simpa [List.filter_eq_nil_iff] using hall
        have hverify : verifyAllPermissions ctx d.requiredPerms = (true, none) := by
          rw [verifyAllPermissions, hmissing]
          exact if_neg (not_not_intro rfl)
        rw [hverify]
        exact Or.inl ⟨hall, rfl⟩
      · have hmissing : d.requiredPerms.filter (· ∉ ctx.getPermissions) ≠ [] := by
          simpa [List.filter_eq_nil_iff] using hall
        rw [verifyAllPermissions, if_pos hmissing]
        exact Or.inr ⟨hall, _, rfl⟩
  | false =>
      simp only [Bool.false_eq_true, if_false]
      by_cases hany : ∃ p ∈ d.requiredPerms, p ∈ ctx.getPermissions
      · rw [verifyAnyPermission, if_neg (not_not_intro hany)]
        exact Or.inl ⟨hany, rfl⟩
      · rw [verifyAnyPermission, if_pos hany]
        exact Or.inr ⟨hany, _, rfl⟩

/-- A call is decided by the history: the function is run if the user has not been deactivated
and has the permissions; otherwise a `PermissionError` is raised. -/
def Decided {ρ : Type} (d : RBACDecorator) (func : AccessContext → ρ) (ctx : AccessContext)
    (history : List Operation) (u : String) : Prop :=
  (¬ Deactivated history u ∧ d.Satisfied (Entitled history u) →
      d.wrapper func ctx = .ok (func ctx)) ∧
    (¬ (¬ Deactivated history u ∧ d.Satisfied (Entitled history u)) →
      ∃ e, d.wrapper func ctx = .error e)

/-- **When a call is decided by the history**: when the user has not been deactivated, or
lacks the permissions. -/
theorem decided_iff {ρ : Type} (history : List Operation) (u : String) (user : User)
    (h : (after history).users.get? u = some user) (serviceAccount : Option ServiceAccount)
    (d : RBACDecorator) (func : AccessContext → ρ) :
    Decided d func ⟨some user, serviceAccount⟩ history u ↔
      ¬ Deactivated history u ∨ ¬ d.Satisfied (Entitled history u) := by
  have hperms : (· ∈ AccessContext.getPermissions ⟨some user, serviceAccount⟩) =
      Entitled history u := funext fun p => propext (mem_permissions_iff h p)
  have hcases := wrapper_cases d func ⟨some user, serviceAccount⟩
  rw [hperms] at hcases
  constructor
  · rintro ⟨-, hraises⟩
    by_contra hboth
    obtain ⟨hdeactivated, hsatisfied⟩ := not_or.mp hboth
    obtain ⟨e, he⟩ := hraises fun hactive => hdeactivated hactive.1
    obtain ⟨-, hruns⟩ | ⟨hnot, -⟩ := hcases
    · exact absurd (hruns.symm.trans he) (by simp)
    · exact hsatisfied hnot
  · intro hcondition
    obtain ⟨hsatisfied, hruns⟩ | ⟨hnot, hraises⟩ := hcases
    · have hactive := hcondition.resolve_right (not_not_intro hsatisfied)
      exact ⟨fun _ => hruns, fun hdenied => absurd ⟨hactive, hsatisfied⟩ hdenied⟩
    · exact ⟨fun hallowed => absurd hallowed.2 hnot, fun _ => hraises⟩

/-! ### Two users -/

/-- An operator. -/
def alice : User where
  userId := "u1"
  username := "alice"
  email := "alice@example.com"
  roles := {.operator}

/-- The function needs one permission. -/
def execution : RBACDecorator := { requiredPerms := [.workflowExecute] }

/-- An operator may execute workflows. -/
theorem decided_operator :
    Decided execution (fun _ => ()) ⟨some alice, none⟩
      [.createUser "u1" "alice" "alice@example.com" (some [.operator])] "u1" := by
  have huser : (after [.createUser "u1" "alice" "alice@example.com" (some [.operator])]).users.get?
      "u1" = some alice := rfl
  refine (decided_iff _ "u1" alice huser none execution (fun _ => ())).mpr (Or.inl ?_)
  rw [← inactive_iff, userHas_iff huser]
  decide

/-- A deactivated operator still may. -/
theorem deactivated_runs : ¬ ∀ (history : List Operation) (u : String) (user : User),
    (after history).users.get? u = some user → ∀ (serviceAccount : Option ServiceAccount)
      (d : RBACDecorator) (func : AccessContext → Unit),
      Decided d func ⟨some user, serviceAccount⟩ history u := by
  intro h
  let history : List Operation :=
    [.createUser "u1" "alice" "alice@example.com" (some [.operator]), .deactivateUser "u1"]
  have huser : (after history).users.get? "u1" = some { alice with isActive := false } := rfl
  obtain ⟨-, hraises⟩ := h history "u1" _ huser none execution fun _ => ()
  obtain ⟨e, he⟩ := hraises fun hactive => hactive.1 (by
    rw [← inactive_iff, userHas_iff huser])
  exact absurd he (by
    have hruns : execution.wrapper (fun _ => ()) ⟨some { alice with isActive := false }, none⟩ =
        .ok () := rfl
    rw [hruns]
    simp)

end Rbac
end Ucser
