import FractalStudio.Admin.Accounts
import FractalStudio.Lib.ReadCommitted

/-!
# The rows of accounts

The tables that hold an account: its status, its roles, its creator profile, its membership and its
sessions, and what the services read of them.
-/
namespace FractalStudio.Accounts

open ReadCommitted
open Admin (UserId UserStatus UserRole AdminRole AdminUserRecord AdminUserUpdateInput)

abbrev SessionId := Nat

structure CreatorProfile where
  handle : String
  displayName : String
  deriving DecidableEq

structure Membership where
  active : Bool
  grantedBy : Option UserId
  deriving DecidableEq

structure Session where
  userId : UserId
  tokenHash : String
  expiresAt : Nat
  revoked : Bool
  rotatedFrom : Option SessionId
  /-- How many transactions had committed at the check of the password, or of the session, that it
  rests on. -/
  checked : Nat
  deriving DecidableEq

structure Database where
  now : Nat
  users : Table UserId UserStatus
  userRoles : Table (UserId × UserRole) Unit
  creatorProfiles : Table UserId CreatorProfile
  memberships : Table UserId Membership
  sessions : Table SessionId Session

structure AccessPrincipal where
  userId : UserId
  sessionId : SessionId
  roles : List UserRole
  tokenHash : String
  deriving DecidableEq

/-! ## What is read -/

namespace Database
variable (db : Database)

def hasRole (userId : UserId) (role : UserRole) : Bool := (db.userRoles.find? (userId, role)).isSome

/-- `list_roles`, in the order of their names. -/
def listRoles (userId : UserId) : List UserRole :=
  [.privileged .admin, .creator, .privileged .financeOperator].filter (db.hasRole userId)

def isActive (userId : UserId) : Bool := db.users.find? userId = some .active

def findUser (userId : UserId) : Option AdminUserRecord :=
  (db.users.find? userId).map fun status =>
    { status := status
      roles := db.listRoles userId
      member := (db.memberships.find? userId).any Membership.active
      creatorHandle := (db.creatorProfiles.find? userId).map CreatorProfile.handle }

/-- `SELECT count(DISTINCT user_id) FROM user_roles WHERE role = 'admin'` -/
def adminCount : Nat :=
  ((db.userRoles.select fun k _ => k.2 = .privileged .admin).map fun r => r.1.1).dedup.length

/-- The condition of `find_active_by_hash` on a session. -/
def accepts (now : Nat) (s : Session) : Bool :=
  !s.revoked && decide (now < s.expiresAt) && db.isActive s.userId

def resolve (now : Nat) (tokenHash : String) : Option AccessPrincipal :=
  match db.sessions.select fun _ s => s.tokenHash = tokenHash && db.accepts now s with
  | [(sessionId, s)] => some ⟨s.userId, sessionId, db.listRoles s.userId, tokenHash⟩
  | _ => none

end Database

/-! ## What is written -/

inductive Key where
  | user (userId : UserId)
  | role (userId : UserId) (role : UserRole)
  | profile (userId : UserId)
  | membership (userId : UserId)
  | session (sessionId : SessionId)
  deriving DecidableEq

inductive Row where
  | user (status : Option UserStatus)
  | role (granted : Bool)
  | profile (profile : Option CreatorProfile)
  | membership (membership : Option Membership)
  | session (session : Option Session)

inductive Write where
  | user (userId : UserId) (status : UserStatus)
  | role (userId : UserId) (role : UserRole) (granted : Bool)
  | profile (userId : UserId) (profile : CreatorProfile)
  | membership (userId : UserId) (membership : Membership)
  | session (sessionId : SessionId) (session : Session)
  deriving DecidableEq

def Database.row (db : Database) : Key → Row
  | .user userId => .user (db.users.find? userId)
  | .role userId r => .role (db.hasRole userId r)
  | .profile userId => .profile (db.creatorProfiles.find? userId)
  | .membership userId => .membership (db.memberships.find? userId)
  | .session sessionId => .session (db.sessions.find? sessionId)

namespace Write

def key : Write → Key
  | .user userId _ => .user userId
  | .role userId r _ => .role userId r
  | .profile userId _ => .profile userId
  | .membership userId _ => .membership userId
  | .session sessionId _ => .session sessionId

def value : Write → Row
  | .user _ status => .user (some status)
  | .role _ _ granted => .role granted
  | .profile _ p => .profile (some p)
  | .membership _ m => .membership (some m)
  | .session _ s => .session (some s)

def run (w : Write) (db : Database) : Database :=
  match w with
  | .user userId status => { db with users := db.users.put userId status }
  | .role userId r true => { db with userRoles := db.userRoles.put (userId, r) () }
  | .role userId r false => { db with userRoles := db.userRoles.erase (userId, r) }
  | .profile userId p => { db with creatorProfiles := db.creatorProfiles.put userId p }
  | .membership userId m => { db with memberships := db.memberships.put userId m }
  | .session sessionId s => { db with sessions := db.sessions.put sessionId s }

end Write

theorem row_run_self (w : Write) (db : Database) : (w.run db).row w.key = w.value := by
  cases w with
  | role userId r granted =>
    cases granted <;> simp [Write.run, Write.key, Write.value, Database.row, Database.hasRole,
      Table.find?_erase]
  | _ => simp [Write.run, Write.key, Write.value, Database.row]

theorem row_run_ne {w : Write} {k : Key} (h : k ≠ w.key) (db : Database) :
    (w.run db).row k = db.row k := by
  cases w with
  | role userId r granted =>
    cases k with
    | role userId' r' =>
      have hne : ¬ (userId' = userId ∧ r' = r) := fun hsame => h (by rw [hsame.1, hsame.2]; rfl)
      cases granted <;> simp [Write.run, Database.row, Database.hasRole, Table.find?_put,
        Table.find?_erase, hne]
    | _ => cases granted <;> rfl
  | _ => cases k <;> simp_all [Write.run, Write.key, Database.row, Database.hasRole, Table.find?_put]

theorem row_run (w : Write) (db : Database) (k : Key) :
    (w.run db).row k = if k = w.key then w.value else db.row k := by
  split
  · next h =>
    rw [h]
    exact row_run_self w db
  · next h => exact row_run_ne h db

def store : Store Database Write Key Row := ⟨Database.row, Write.run, Write.key, Write.value, row_run⟩

/-! ## Locks -/

inductive Resource where
  | row (key : Key)
  /-- `pg_advisory_xact_lock` on the hash of an account; those of two accounts may collide -/
  | identity (userId : UserId)
  deriving DecidableEq

structure Lock where
  resource : Resource
  exclusive : Bool
  deriving DecidableEq

namespace Lock

def conflicts (l m : Lock) : Bool := decide (l.resource = m.resource) && (l.exclusive || m.exclusive)

theorem conflicts_comm (l m : Lock) : l.conflicts m = m.conflicts l := by
  rw [conflicts, conflicts, Bool.or_comm, decide_eq_decide.mpr eq_comm]

/-- The lock of a row that is written, or selected `FOR UPDATE`. -/
def row (key : Key) : Lock := ⟨.row key, true⟩

/-- The lock of a foreign key that names an account. -/
def shared (userId : UserId) : Lock := ⟨.row (.user userId), false⟩

def identity (userId : UserId) : Lock := ⟨.identity userId, true⟩

end Lock

end FractalStudio.Accounts
