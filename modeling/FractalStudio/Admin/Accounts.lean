import FractalStudio.Lib.Guards
import FractalStudio.Lib.Slots
import Mathlib.Data.List.Dedup

/-!
# The administration of accounts

What `AdminService.update_user` takes in and checks.
-/
namespace FractalStudio.Admin

open Guards

abbrev UserId := Nat

inductive UserStatus where
  | active
  | disabled
  deriving DecidableEq

/-- The roles an administrator hands out. -/
inductive AdminRole where
  | admin
  | financeOperator
  deriving DecidableEq

inductive UserRole where
  | privileged (role : AdminRole)
  | creator
  deriving DecidableEq

structure AdminUserUpdateInput where
  status : Option UserStatus
  member : Option Bool
  privilegedRoles : Option (List AdminRole)
  deriving DecidableEq

structure AdminUserRecord where
  status : UserStatus
  roles : List UserRole
  member : Bool
  creatorHandle : Option String
  deriving DecidableEq

def sortedRoles (roles : List AdminRole) : List AdminRole :=
  [.admin, .financeOperator].filter (· ∈ roles)

/-- The roles of the record among those an administrator hands out. -/
def AdminUserRecord.privileged (current : AdminUserRecord) : List AdminRole :=
  [.admin, .financeOperator].filter fun role => .privileged role ∈ current.roles

def nextStatus (payload : AdminUserUpdateInput) (current : AdminUserRecord) : UserStatus :=
  payload.status.getD current.status

def nextMember (payload : AdminUserUpdateInput) (current : AdminUserRecord) : Bool :=
  payload.member.getD current.member

def nextPrivileged (payload : AdminUserUpdateInput) (current : AdminUserRecord) : List AdminRole :=
  payload.privilegedRoles.getD current.privileged

/-- The checks between the reads and the writes; `admins` is what `admin_count` finds. -/
def checkUpdate (principal userId : UserId) (payload : AdminUserUpdateInput)
    (current : AdminUserRecord) (admins : Nat) : Except String Unit := do
  let next := nextPrivileged payload current
  rejectIf (.admin ∈ next ∧ (.creator ∈ current.roles ∨ current.creatorHandle.isSome))
    "admin_creator_role_conflict"
  rejectIf (userId = principal ∧ nextStatus payload current ≠ .active) "cannot_disable_self"
  rejectIf (userId = principal ∧ .admin ∉ next) "cannot_remove_own_admin"
  rejectIf (.admin ∈ current.privileged ∧ .admin ∉ next ∧ admins ≤ 1) "last_admin"

/-- Nobody disables or demotes himself. -/
theorem checkUpdate_ok {principal userId : UserId} {payload : AdminUserUpdateInput}
    {current : AdminUserRecord} {admins : Nat}
    (h : checkUpdate principal userId payload current admins = .ok ()) (hself : userId = principal) :
    nextStatus payload current = .active ∧ .admin ∈ nextPrivileged payload current := by
  have hpasses : Passes (checkUpdate principal userId payload current admins) := ⟨(), h⟩
  simp only [checkUpdate, passes_seq, passes_rejectIf] at hpasses
  obtain ⟨-, hdisable, hremove, -⟩ := hpasses
  exact ⟨Classical.not_not.mp fun hne => hdisable ⟨hself, hne⟩,
    Classical.not_not.mp fun hno => hremove ⟨hself, hno⟩⟩

end FractalStudio.Admin
