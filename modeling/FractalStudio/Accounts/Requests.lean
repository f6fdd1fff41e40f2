import FractalStudio.Accounts.Rows

/-!
# The requests that write accounts

`update_user`, `upsert_creator_profile`, `grant_admin`, the settlement of a membership order,
`grant_membership`, `login` and `logout`, statement by statement. The triggers that keep
administrators and creators apart run statement by statement, too.
-/
namespace FractalStudio.Accounts

open ReadCommitted
open Admin (UserId UserStatus UserRole AdminRole AdminUserRecord AdminUserUpdateInput nextStatus
  nextMember nextPrivileged sortedRoles)

inductive Request where
  | updateUser (principal : AccessPrincipal) (userId : UserId) (payload : AdminUserUpdateInput)
  /-- with the number of commits that the check of the session has seen -/
  | upsertCreatorProfile (principal : AccessPrincipal) (profile : CreatorProfile) (checked : Nat)
  | grantAdmin (userId : UserId)
  | settleMembership (buyer : UserId)
  | grantMembership (principal : AccessPrincipal) (userId : UserId)
  /-- with the token that the request presents, and whether it is a bearer token -/
  | login (userId : UserId) (presented : Option String) (bearer : Bool) (startedAt : Nat)
  | logout (principal : AccessPrincipal)
  deriving DecidableEq

inductive Stmt where
  /-- `idempotency_service.claim` -/
  | claim (userId : UserId)
  | lockUser (userId : UserId)
  | findUser (userId : UserId)
  /-- `admin_count` and the checks of `update_user` -/
  | checkUpdate
  | updateStatus (userId : UserId) (status : UserStatus)
  | deletePrivileged (userId : UserId)
  | insertRole (userId : UserId) (role : UserRole)
  /-- Without a grantor, who granted a membership stays. -/
  | upsertMembership (userId : UserId) (active : Bool) (grantedBy : Option UserId)
  | revokeSessionsOf (userId : UserId)
  | lockProfile (userId : UserId)
  | upsertProfile (userId : UserId) (profile : CreatorProfile)
  | revokeSession (sessionId : SessionId)
  | createSession (userId : UserId) (rotatedFrom : Option SessionId) (checked : Nat)
  /-- `find_by_email`, with the check of the password -/
  | findAccount (userId : UserId)
  | resolveSession (userId : UserId) (checked : Nat)
  /-- also the closing `_user_view`, which reads the account again -/
  | requireActive (userId : UserId)
  | requireNoProfile (userId : UserId)
  deriving DecidableEq

/-- How far the trigger of the statement at the head has come. -/
inductive Phase where
  | idle
  /-- It has the advisory lock. -/
  | locked
  /-- It has not raised. -/
  | checked
  deriving DecidableEq

structure Proc where
  request : Request
  /-- What `find_user` has read. -/
  read : Option AdminUserRecord
  phase : Phase
  todo : List Stmt
  deriving DecidableEq

/-- What the services take from outside: new session ids and tokens, the clock, and whether the
record of an idempotency key is new. -/
structure Input where
  sessionId : SessionId
  tokenHash : String
  expiresAt : Nat
  claims : Bool
  deriving DecidableEq

/-! ## Statements -/

def Request.statements : Request → List Stmt
  | .updateUser principal userId _ =>
    [.claim principal.userId, .lockUser userId, .findUser userId, .checkUpdate]
  | .upsertCreatorProfile principal profile checked =>
    [.claim principal.userId, .lockProfile principal.userId,
      .upsertProfile principal.userId profile, .insertRole principal.userId .creator,
      .revokeSession principal.sessionId,
      .createSession principal.userId (some principal.sessionId) checked,
      .requireActive principal.userId]
  | .grantAdmin userId =>
    [.requireActive userId, .requireNoProfile userId, .insertRole userId (.privileged .admin)]
  | .settleMembership buyer => [.upsertMembership buyer true none]
  | .grantMembership principal userId => [.upsertMembership userId true (some principal.userId)]
  | .login userId _ _ _ => [.findAccount userId]
  | .logout principal => [.revokeSession principal.sessionId]

def updateStatements (userId : UserId) (status : UserStatus) (member : Bool)
    (roles : List AdminRole) (grantedBy : UserId) : List Stmt :=
  .updateStatus userId status :: .deletePrivileged userId ::
    ((sortedRoles roles).map (fun role => .insertRole userId (.privileged role)) ++
      .upsertMembership userId member (some grantedBy) ::
        if status = .disabled then [.revokeSessionsOf userId] else [])

/-- What `login` does with the session that it has resolved. -/
def sessionStatements (userId : UserId) (checked : Nat) (bearer : Bool) :
    Option AccessPrincipal → List Stmt
  | some existing =>
    if existing.userId = userId then
      [.revokeSession existing.sessionId, .createSession userId (some existing.sessionId) checked,
        .requireActive userId]
    else if bearer then
      [.revokeSession existing.sessionId, .createSession userId none checked, .requireActive userId]
    else [.createSession userId none checked, .requireActive userId]
  | none => [.createSession userId none checked, .requireActive userId]

def roleRaises (db : Database) (userId : UserId) : UserRole → Bool
  | .privileged .admin => db.hasRole userId .creator || (db.creatorProfiles.find? userId).isSome
  | .creator => db.hasRole userId (.privileged .admin)
  | .privileged .financeOperator => false

def profileRaises (db : Database) (userId : UserId) : Bool :=
  db.hasRole userId (.privileged .admin)

namespace Proc

def start (request : Request) : Proc := ⟨request, none, .idle, request.statements⟩

/-- The statement at the head has run. -/
def after (p : Proc) (rest : List Stmt) : Proc := { p with phase := .idle, todo := rest }

end Proc

/-- A statement that locks and writes nothing. -/
def reads (next : Proc) : Effect Proc Write Lock := ⟨[], [], [], next⟩

/-- The trigger of a statement comes to another phase. -/
def triggers (p : Proc) (holds : List Lock) (phase : Phase) : Effect Proc Write Lock :=
  ⟨[], holds, [], { p with phase := phase }⟩

/-- A statement over the rows that its transaction sees. -/
def Stmt.effect (p : Proc) (rest : List Stmt) (commits : Nat) (db : Database) (input : Input) :
    Stmt → Option (Effect Proc Write Lock)
  | .claim userId =>
    some ⟨[], if input.claims then [.shared userId] else [], [], p.after rest⟩
  | .lockUser userId =>
    if (db.users.find? userId).isSome then
      some ⟨[], [.row (.user userId)], [], p.after rest⟩
    else none
  | .findUser userId =>
    (db.findUser userId).map fun current => reads { p.after rest with read := some current }
  | .checkUpdate =>
    match p.request, p.read with
    | .updateUser principal userId payload, some current =>
      match Admin.checkUpdate principal.userId userId payload current db.adminCount with
      | .error _ => none
      | .ok _ => some <| reads <| p.after <| updateStatements userId (nextStatus payload current)
          (nextMember payload current) (nextPrivileged payload current) principal.userId ++ rest
    | _, _ => none
  | .updateStatus userId status =>
    some ⟨[], [], if (db.users.find? userId).isSome then [.user userId status] else [],
      p.after rest⟩
  | .deletePrivileged userId =>
    some ⟨[], [], ([.admin, .financeOperator].filter fun role =>
      db.hasRole userId (.privileged role)).map fun role => .role userId (.privileged role) false,
      p.after rest⟩
  | .insertRole userId role =>
    match p.phase with
    | .idle => some (triggers p [.identity userId] .locked)
    | .locked => if roleRaises db userId role then none else some (triggers p [] .checked)
    | .checked =>
      if db.hasRole userId role then some ⟨[.row (.role userId role)], [], [], p.after rest⟩
      else some ⟨[], [.shared userId], [.role userId role true], p.after rest⟩
  | .upsertMembership userId active grantedBy =>
    match db.memberships.find? userId with
    | none => some ⟨[], .shared userId :: (grantedBy.map .shared).toList,
        [.membership userId ⟨active, grantedBy⟩], p.after rest⟩
    | some m => some ⟨[], if grantedBy = m.grantedBy then [] else (grantedBy.map .shared).toList,
        [.membership userId ⟨active, grantedBy.or m.grantedBy⟩], p.after rest⟩
  | .revokeSessionsOf userId =>
    some ⟨[], [], (db.sessions.select fun _ s => s.userId = userId && !s.revoked).map fun x =>
      .session x.1 { x.2 with revoked := true }, p.after rest⟩
  | .lockProfile userId =>
    some ⟨[], if (db.creatorProfiles.find? userId).isSome then [.row (.profile userId)] else [], [],
      p.after rest⟩
  | .upsertProfile userId profile =>
    match p.phase with
    | .idle => some (triggers p [.identity userId] .locked)
    | .locked => if profileRaises db userId then none else some (triggers p [] .checked)
    | .checked => some ⟨[], if (db.creatorProfiles.find? userId).isSome then [] else [.shared userId],
        [.profile userId profile], p.after rest⟩
  | .revokeSession sessionId =>
    match db.sessions.find? sessionId with
    | some s =>
      if s.revoked then some (reads (p.after rest))
      else some ⟨[], [], [.session sessionId { s with revoked := true }], p.after rest⟩
    | none => some (reads (p.after rest))
  | .createSession userId rotatedFrom checked =>
    if (db.sessions.find? input.sessionId).isNone then
      some ⟨[], [.shared userId], [.session input.sessionId
        ⟨userId, input.tokenHash, input.expiresAt, false, rotatedFrom, checked⟩], p.after rest⟩
    else none
  | .findAccount userId =>
    if db.isActive userId then some (reads (p.after (.resolveSession userId commits :: rest)))
    else none
  | .resolveSession userId checked =>
    match p.request with
    | .login _ presented bearer startedAt => some <| reads <| p.after <|
        sessionStatements userId checked bearer (presented.bind (db.resolve startedAt)) ++ rest
    | _ => none
  | .requireActive userId => if db.isActive userId then some (reads (p.after rest)) else none
  | .requireNoProfile userId =>
    if (db.creatorProfiles.find? userId).isSome then none else some (reads (p.after rest))

def statement (p : Proc) (commits : Nat) (db : Database) (input : Input) :
    Option (Effect Proc Write Lock) :=
  match p.todo with
  | [] => none
  | s :: rest => s.effect p rest commits db input

/-! ## The system -/

/-- The principal is resolved before the transaction of its request starts. -/
def Database.authenticates (db : Database) (principal : AccessPrincipal) : Bool :=
  db.resolve db.now principal.tokenHash = some principal

def Request.admitted (commits : Nat) (db : Database) : Request → Bool
  | .updateUser principal _ _ =>
    db.authenticates principal && decide (.privileged .admin ∈ principal.roles)
  | .upsertCreatorProfile principal _ checked =>
    db.authenticates principal && decide (.privileged .admin ∉ principal.roles) &&
      checked = commits
  | .grantAdmin _ => true
  | .settleMembership _ => true
  | .grantMembership principal _ =>
    db.authenticates principal && decide (.privileged .financeOperator ∈ principal.roles) &&
      decide (.privileged .admin ∉ principal.roles)
  | .login _ _ _ startedAt => startedAt = db.now
  | .logout principal => db.authenticates principal

def Proc.starts (commits : Nat) (db : Database) (p : Proc) : Bool :=
  decide (p = .start p.request) && p.request.admitted commits db

def system : System Database Write Key Row Lock Proc Input where
  store := store
  conflicts := Lock.conflicts
  conflicts_comm := Lock.conflicts_comm
  writeLock := Lock.row
  starts := Proc.starts
  statement := statement
  ends p := p.todo.isEmpty
  elapse db := { db with now := db.now + 1 }
  row_elapse _ k := by cases k <;> rfl

/-- No request is open. -/
def IsInitial (s : State Database Proc Write Lock) : Prop := s.txs = Table.empty

end FractalStudio.Accounts
