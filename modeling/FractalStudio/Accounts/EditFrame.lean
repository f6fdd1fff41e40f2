import FractalStudio.Accounts.Separation
import Mathlib

/-!
# What an edit leaves alone

`update_user` reads an account, fills what the payload leaves out with what it has read, and writes
all of it. The lock of the account keeps others from its status and its roles, but not from its
membership.
-/
namespace FractalStudio.Accounts

open ReadCommitted Transition
open Admin (UserId UserStatus UserRole AdminRole AdminUserRecord AdminUserUpdateInput nextStatus
  nextMember nextPrivileged sortedRoles)

/-- What the payload leaves out is in the second database what it is in the first. -/
structure KeepsFrame (db db' : Database) (userId : UserId) (payload : AdminUserUpdateInput) :
    Prop where
  status : payload.status = none → db'.users.find? userId = db.users.find? userId
  privileged : payload.privilegedRoles = none →
    ∀ role, db'.hasRole userId (.privileged role) = db.hasRole userId (.privileged role)
  membership : payload.member = none → db'.memberships.find? userId = db.memberships.find? userId

/-! ## What the lock of the account protects -/

@[ext] structure Standing where
  status : Option UserStatus
  privileged : AdminRole → Bool

def Database.standing (db : Database) (userId : UserId) : Standing where
  status := db.users.find? userId
  privileged role := db.hasRole userId (.privileged role)

def readStanding (current : AdminUserRecord) : Standing where
  status := some current.status
  privileged role := decide (.privileged role ∈ current.roles)

/-- What an edit is to leave. -/
def nextStanding (payload : AdminUserUpdateInput) (current : AdminUserRecord) : Standing where
  status := some (nextStatus payload current)
  privileged role := decide (role ∈ nextPrivileged payload current)

/-- A statement of `repository.update_user` with these arguments. -/
def Stmt.edits (userId : UserId) (member : Bool) (grantedBy : UserId) : Stmt → Bool
  | .updateStatus u _ => u = userId
  | .deletePrivileged u => u = userId
  | .insertRole u (.privileged _) => u = userId
  | .upsertMembership u active g => u = userId && active = member && g = some grantedBy
  | .revokeSessionsOf u => u = userId
  | _ => false

/-- What such a statement leaves. -/
def Stmt.leaves (a : Standing) : Stmt → Standing
  | .updateStatus _ status => { a with status := a.status.map fun _ => status }
  | .deletePrivileged _ => { a with privileged := fun _ => false }
  | .insertRole _ (.privileged role) =>
    { a with privileged := fun r => decide (r = role) || a.privileged r }
  | _ => a

section
variable {db : Database} {userId : UserId} {current : AdminUserRecord}
  {payload : AdminUserUpdateInput}

theorem hasRole_eq_mem (role : AdminRole) :
    db.hasRole userId (.privileged role) = decide (.privileged role ∈ db.listRoles userId) := by
  cases role <;> simp [Database.listRoles]

theorem standing_of_findUser (h : db.findUser userId = some current) :
    db.standing userId = readStanding current := by
  obtain ⟨status, hstatus, rfl⟩ := Option.map_eq_some_iff.mp h
  have hroles := @hasRole_eq_mem db userId
  simp only [Database.standing, readStanding, hstatus, hroles]

theorem nextStanding_status (h : payload.status = none) :
    (nextStanding payload current).status = (readStanding current).status := by
  rw [nextStanding, nextStatus, h]
  rfl

theorem nextStanding_privileged (h : payload.privilegedRoles = none) :
    (nextStanding payload current).privileged = (readStanding current).privileged := by
  funext role
  cases role <;> simp [nextStanding, nextPrivileged, h, readStanding, AdminUserRecord.privileged]

theorem leaves_updateStatements (status old : UserStatus) (member : Bool) (roles : List AdminRole)
    (grantedBy : UserId) (privileged : AdminRole → Bool) :
    (updateStatements userId status member roles grantedBy).foldl Stmt.leaves
        ⟨some old, privileged⟩ = ⟨some status, fun role => decide (role ∈ roles)⟩ := by
  have hrevokes (a : Standing) : (if status = .disabled then [Stmt.revokeSessionsOf userId]
      else []).foldl Stmt.leaves a = a := by
    split <;> rfl
  simp only [updateStatements, List.foldl_cons, List.foldl_append, Stmt.leaves, hrevokes]
  ext role
  · by_cases hadmin : AdminRole.admin ∈ roles <;>
      by_cases hfinance : AdminRole.financeOperator ∈ roles <;>
      simp [sortedRoles, hadmin, hfinance, Stmt.leaves]
  · by_cases hadmin : AdminRole.admin ∈ roles <;>
      by_cases hfinance : AdminRole.financeOperator ∈ roles <;>
      cases role <;> simp [sortedRoles, hadmin, hfinance, Stmt.leaves]

theorem edits_updateStatements (status : UserStatus) (member : Bool) (roles : List AdminRole)
    (grantedBy : UserId) :
    ∀ s ∈ updateStatements userId status member roles grantedBy,
      s.edits userId member grantedBy = true := by
  intro s hs
  simp only [updateStatements, List.mem_cons, List.mem_append, List.mem_map] at hs
  obtain rfl | rfl | ⟨role, -, rfl⟩ | rfl | hs := hs
  · exact decide_eq_true rfl
  · exact decide_eq_true rfl
  · exact decide_eq_true rfl
  · simp [Stmt.edits]
  · split at hs
    · obtain rfl := List.mem_singleton.mp hs
      exact decide_eq_true rfl
    · cases hs

end

/-! ## Statements -/

section
variable {p : Proc} {rest : List Stmt} {commits : Nat} {db : Database} {input : Input}
  {e : Effect Proc Write Lock} {s : Stmt} {userId grantedBy : UserId} {member : Bool}

theorem status_view_of_ne {log : List Write} (db : Database)
    (h : ∀ w ∈ log, w.key ≠ .user userId) :
    (system.view log db).users.find? userId = db.users.find? userId :=
  Row.user.inj (row_of_not_written db h)

theorem standing_view_of_ne {log : List Write} (db : Database)
    (h : ∀ w ∈ log, w.key ≠ .user userId ∧ ∀ role, w.key ≠ .role userId role) :
    (system.view log db).standing userId = db.standing userId := by
  refine Standing.ext (status_view_of_ne db fun w hw => (h w hw).1) (funext fun role => ?_)
  exact Row.role.inj (row_of_not_written db fun w hw => (h w hw).2 (.privileged role))

theorem standing_updateStatus (db : Database) (userId : UserId) (status : UserStatus) :
    (system.view (if (db.users.find? userId).isSome then [.user userId status] else []) db).standing
      userId = (Stmt.updateStatus userId status).leaves (db.standing userId) := by
  cases huser : db.users.find? userId <;>
    simp [System.view, system, store, Write.run, Database.standing, Stmt.leaves, huser,
      Database.hasRole]

theorem standing_deletePrivileged (db : Database) (userId : UserId) :
    (system.view (([.admin, .financeOperator].filter fun role =>
        db.hasRole userId (.privileged role)).map fun role =>
          .role userId (.privileged role) false) db).standing userId =
      (Stmt.deletePrivileged userId).leaves (db.standing userId) := by
  refine Standing.ext (status_view_of_ne db fun w hw => ?_) (funext fun role => ?_)
  · obtain ⟨role, -, rfl⟩ := List.mem_map.mp hw
    nofun
  · cases hadmin : db.hasRole userId (.privileged .admin) <;>
      cases hfinance : db.hasRole userId (.privileged .financeOperator) <;>
      cases role <;>
      simp_all [System.view, system, store, Write.run, Database.standing, Stmt.leaves,
        Database.hasRole, Table.find?_erase]

theorem standing_insertRole_of_hasRole {role : AdminRole}
    (h : db.hasRole userId (.privileged role) = true) :
    (Stmt.insertRole userId (.privileged role)).leaves (db.standing userId) =
      db.standing userId := by
  ext role'
  · rfl
  · by_cases hsame : role' = role
    · simp [Stmt.leaves, Database.standing, hsame, h]
    · simp [Stmt.leaves, hsame]

theorem standing_insertRole (db : Database) (userId : UserId) (role : AdminRole) :
    (system.view [.role userId (.privileged role) true] db).standing userId =
      (Stmt.insertRole userId (.privileged role)).leaves (db.standing userId) := by
  ext role'
  · rfl
  · have hgrant := hasRole_grant db userId (.privileged role) (.privileged role')
    by_cases hsame : role' = role <;>
      simp_all [Stmt.leaves, Database.standing, System.view, system, store]

theorem effect_request (h : s.effect p rest commits db input = some e) :
    e.next.request = p.request := by
  cases s with
  | findUser userId =>
    obtain ⟨current, -, rfl⟩ := Option.map_eq_some_iff.mp h
    rfl
  | _ => grind [Stmt.effect, reads, Proc.after, triggers]

theorem effect_edits (hedits : s.edits userId member grantedBy = true)
    (h : s.effect p rest commits db input = some e) :
    e.next.read = p.read ∧
      ((e.next.todo = p.todo ∧ e.writes = []) ∨
        (e.next.todo = rest ∧
          (system.view e.writes db).standing userId = s.leaves (db.standing userId))) := by
  cases s with
  | updateStatus u status =>
    obtain rfl := of_decide_eq_true hedits
    obtain rfl := Option.some.inj h
    refine ⟨rfl, .inr ⟨rfl, ?_⟩⟩
    exact standing_updateStatus db u status
  | deletePrivileged u =>
    obtain rfl := of_decide_eq_true hedits
    obtain rfl := Option.some.inj h
    exact ⟨rfl, .inr ⟨rfl, standing_deletePrivileged db u⟩⟩
  | insertRole u role =>
    cases role with
    | creator => cases hedits
    | privileged role =>
      obtain rfl := of_decide_eq_true hedits
      cases hphase : p.phase with
      | idle =>
        simp only [Stmt.effect, hphase] at h
        obtain rfl := Option.some.inj h
        exact ⟨rfl, .inl ⟨rfl, rfl⟩⟩
      | locked =>
        simp only [Stmt.effect, hphase] at h
        obtain ⟨-, h⟩ := Option.ite_none_left_eq_some.mp h
        obtain rfl := Option.some.inj h
        exact ⟨rfl, .inl ⟨rfl, rfl⟩⟩
      | checked =>
        simp only [Stmt.effect, hphase] at h
        split at h
        · next hhas =>
          obtain rfl := Option.some.inj h
          exact ⟨rfl, .inr ⟨rfl, (standing_insertRole_of_hasRole hhas).symm⟩⟩
        · obtain rfl := Option.some.inj h
          exact ⟨rfl, .inr ⟨rfl, standing_insertRole db u role⟩⟩
  | upsertMembership u active g =>
    simp only [Stmt.effect] at h
    split at h
    · obtain rfl := Option.some.inj h
      exact ⟨rfl, .inr ⟨rfl, rfl⟩⟩
    · obtain rfl := Option.some.inj h
      exact ⟨rfl, .inr ⟨rfl, rfl⟩⟩
  | revokeSessionsOf u =>
    obtain rfl := Option.some.inj h
    refine ⟨rfl, .inr ⟨rfl, standing_view_of_ne db fun w hw => ?_⟩⟩
    obtain ⟨x, -, rfl⟩ := List.mem_map.mp hw
    constructor
    · intro heq
      cases heq
    · intro role heq
      cases heq
  | _ => cases hedits

theorem effect_membership (hedits : s.edits userId member grantedBy = true)
    (h : s.effect p rest commits db input = some e) :
    (s = .upsertMembership userId member (some grantedBy) ∧
        e.writes = [.membership userId ⟨member, some grantedBy⟩]) ∨
      s ≠ .upsertMembership userId member (some grantedBy) ∧
        ∀ w ∈ e.writes, w.key ≠ .membership userId := by
  cases s with
  | upsertMembership u active g =>
    obtain ⟨⟨rfl, rfl⟩, rfl⟩ : (u = userId ∧ active = member) ∧ g = some grantedBy := by
      simpa [Stmt.edits] using hedits
    simp only [Stmt.effect] at h
    split at h <;> obtain rfl := Option.some.inj h <;> exact .inl ⟨rfl, rfl⟩
  | _ => grind [Stmt.effect, Stmt.edits, reads, Proc.after, triggers, Write.key]

theorem mem_sessionStatements {userId : UserId} {checked : Nat} {bearer : Bool}
    {existing : Option AccessPrincipal} {s : Stmt}
    (h : s ∈ sessionStatements userId checked bearer existing) :
    (∃ sessionId, s = .revokeSession sessionId) ∨
      (∃ replaced, s = .createSession userId replaced checked) ∨ s = .requireActive userId := by
  cases existing <;> grind [sessionStatements]

theorem closes_sessionStatements (userId : UserId) (checked : Nat) (bearer : Bool)
    (existing : Option AccessPrincipal) :
    (∃ replaced, .createSession userId replaced checked ∈
        sessionStatements userId checked bearer existing) ∧
      .requireActive userId ∈ sessionStatements userId checked bearer existing := by
  cases existing <;> grind [sessionStatements]

theorem not_delete_sessionStatements (userId : UserId) (checked : Nat) (bearer : Bool)
    (existing : Option AccessPrincipal) (u : UserId) :
    .deletePrivileged u ∉ sessionStatements userId checked bearer existing := by
  intro h
  obtain ⟨_, h⟩ | ⟨_, h⟩ | h := mem_sessionStatements h <;> cases h

theorem effect_todo (htodo : p.todo = s :: rest) (h : s.effect p rest commits db input = some e)
    {s' : Stmt} (hs' : s' ∈ e.next.todo) : s' ∈ p.todo ∨
      (s = .checkUpdate ∧ ∃ principal userId payload status member roles,
        p.request = .updateUser principal userId payload ∧
          e.next.todo = updateStatements userId status member roles principal.userId ++ rest ∧
          s' ∈ updateStatements userId status member roles principal.userId) ∨
      (∃ userId, s = .findAccount userId ∧ s' = .resolveSession userId commits) ∨
      (∃ userId checked bearer existing, s = .resolveSession userId checked ∧
        (∀ x, existing = some x → ∃ now token, db.resolve now token = some x) ∧
          s' ∈ sessionStatements userId checked bearer existing) := by
  have hrest (hmem : s' ∈ rest) : s' ∈ p.todo := htodo ▸ List.mem_cons_of_mem _ hmem
  cases s with
  | findUser u =>
    obtain ⟨current, -, rfl⟩ := Option.map_eq_some_iff.mp h
    exact .inl (hrest hs')
  | checkUpdate =>
    simp only [Stmt.effect] at h
    split at h
    · next principal u payload current hrequest hread =>
      split at h
      · cases h
      · obtain rfl := Option.some.inj h
        obtain hmem | hmem := List.mem_append.mp hs'
        · exact .inr (.inl ⟨rfl, principal, u, payload, _, _, _, hrequest, rfl, hmem⟩)
        · exact .inl (hrest hmem)
    · cases h
  | findAccount u =>
    obtain ⟨-, h⟩ := Option.ite_none_right_eq_some.mp h
    obtain rfl := Option.some.inj h
    obtain rfl | hmem := List.mem_cons.mp hs'
    · exact .inr (.inr (.inl ⟨u, rfl, rfl⟩))
    · exact .inl (hrest hmem)
  | resolveSession u checked =>
    simp only [Stmt.effect] at h
    split at h
    · next presented bearer startedAt hrequest =>
      obtain rfl := Option.some.inj h
      obtain hmem | hmem := List.mem_append.mp hs'
      · refine .inr (.inr (.inr ⟨u, checked, bearer, _, rfl, fun x hx => ?_, hmem⟩))
        obtain ⟨token, -, hresolve⟩ := Option.bind_eq_some_iff.mp hx
        exact ⟨startedAt, token, hresolve⟩
      · exact .inl (hrest hmem)
    · cases h
  | _ => grind [Stmt.effect, reads, Proc.after, triggers]

theorem effect_deletes (htodo : p.todo = s :: rest)
    (h : s.effect p rest commits db input = some e)
    (hdelete : .deletePrivileged userId ∈ e.next.todo) : .deletePrivileged userId ∈ p.todo ∨
      s = .checkUpdate ∧ ∃ principal payload, p.request = .updateUser principal userId payload := by
  obtain hbefore | ⟨rfl, principal, u, payload, _, _, _, hrequest, -, hmem⟩ | ⟨u, -, heq⟩ |
    ⟨u, checked, bearer, existing, -, -, hmem⟩ := effect_todo htodo h hdelete
  · exact .inl hbefore
  · obtain rfl := of_decide_eq_true (edits_updateStatements _ _ _ _ _ hmem)
    exact .inr ⟨rfl, principal, payload, hrequest⟩
  · cases heq
  · exact absurd hmem (not_delete_sessionStatements u checked bearer existing userId)

theorem effect_role {role : UserRole} {granted : Bool}
    (h : s.effect p rest commits db input = some e)
    (hw : .role userId role granted ∈ e.writes) :
    Lock.shared userId ∈ e.holds ∨ s = .deletePrivileged userId := by
  cases s with
  | findUser userId =>
    obtain ⟨current, -, rfl⟩ := Option.map_eq_some_iff.mp h
    cases hw
  | _ => grind [Stmt.effect, reads, Proc.after, triggers]

theorem effect_status {status : UserStatus}
    (h : s.effect p rest commits db input = some e) (hw : .user userId status ∈ e.writes) :
    s = .updateStatus userId status := by
  cases s with
  | findUser userId =>
    obtain ⟨current, -, rfl⟩ := Option.map_eq_some_iff.mp h
    cases hw
  | _ => grind [Stmt.effect, reads, Proc.after, triggers]

theorem mem_updateStatements_status {u : UserId} {status status' : UserStatus}
    {member : Bool} {roles : List AdminRole}
    (h : .updateStatus userId status' ∈ updateStatements u status member roles grantedBy) :
    userId = u ∧ status' = status := by
  simp only [updateStatements, List.mem_cons, List.mem_append, List.mem_map] at h
  obtain heq | heq | ⟨role, -, heq⟩ | heq | h := h
  · exact Stmt.updateStatus.inj heq
  · cases heq
  · cases heq
  · cases heq
  · split at h
    · cases List.mem_singleton.mp h
    · cases h

end

/-! ## What an edit knows -/

/-- An edit in `repository.update_user`. -/
structure Writing (principal : AccessPrincipal) (userId : UserId) (payload : AdminUserUpdateInput)
    (current : AdminUserRecord) (db : Database) (tx : Tx Proc Write Lock) : Prop where
  locked : Lock.row (.user userId) ∈ tx.locks
  read : tx.pc.read = some current
  found : db.standing userId = readStanding current
  checked : ∃ admins,
    Admin.checkUpdate principal.userId userId payload current admins = .ok ()
  edits : ∀ s ∈ tx.pc.todo,
    s.edits userId (nextMember payload current) principal.userId = true
  ahead : tx.pc.todo.foldl Stmt.leaves ((system.view tx.log db).standing userId) =
    nextStanding payload current
  status : ∀ status, .updateStatus userId status ∈ tx.pc.todo ∨ .user userId status ∈ tx.log →
    status = nextStatus payload current
  membership : .upsertMembership userId (nextMember payload current) (some principal.userId) ∈
      tx.pc.todo ∨
    ∀ d, (system.view tx.log d).memberships.find? userId =
      some ⟨nextMember payload current, some principal.userId⟩

/-- How far an edit has come. -/
inductive Editing (principal : AccessPrincipal) (userId : UserId) (payload : AdminUserUpdateInput)
    (db : Database) (tx : Tx Proc Write Lock) : Prop
  | claiming (todo : tx.pc.todo =
      [.claim principal.userId, .lockUser userId, .findUser userId, .checkUpdate])
      (log : tx.log = [])
  | locking (todo : tx.pc.todo = [.lockUser userId, .findUser userId, .checkUpdate])
      (log : tx.log = [])
  | finding (todo : tx.pc.todo = [.findUser userId, .checkUpdate]) (log : tx.log = [])
      (locked : Lock.row (.user userId) ∈ tx.locks)
  | checking (current : AdminUserRecord) (todo : tx.pc.todo = [.checkUpdate]) (log : tx.log = [])
      (locked : Lock.row (.user userId) ∈ tx.locks) (read : tx.pc.read = some current)
      (found : db.standing userId = readStanding current)
  | writing (current : AdminUserRecord) (h : Writing principal userId payload current db tx)

/-- What a transaction knows of its edit and its grants. -/
structure Frames (db : Database) (tx : Tx Proc Write Lock) : Prop where
  roles : ∀ userId role granted, .role userId role granted ∈ tx.log →
    Lock.shared userId ∈ tx.locks ∨ Lock.row (.user userId) ∈ tx.locks
  deletes : ∀ userId, .deletePrivileged userId ∈ tx.pc.todo → Lock.row (.user userId) ∈ tx.locks
  edit : ∀ principal userId payload, tx.pc.request = .updateUser principal userId payload →
    Editing principal userId payload db tx

section
variable {db db' : Database} {tx ux : Tx Proc Write Lock} {principal : AccessPrincipal}
  {userId : UserId} {payload : AdminUserUpdateInput} {current : AdminUserRecord} {n : Nat}
  {input : Input} {e : Effect Proc Write Lock} {s : Stmt} {rest : List Stmt}

theorem Writing.start (locked : Lock.row (.user userId) ∈ tx.locks)
    (read : tx.pc.read = some current) (found : db.standing userId = readStanding current)
    (checked : ∃ admins, Admin.checkUpdate principal.userId userId payload current admins = .ok ())
    (todo : tx.pc.todo = updateStatements userId (nextStatus payload current)
      (nextMember payload current) (nextPrivileged payload current) principal.userId)
    (log : tx.log = []) : Writing principal userId payload current db tx where
  locked := locked
  read := read
  found := found
  checked := checked
  edits s hs := edits_updateStatements _ _ _ _ s (todo ▸ hs)
  ahead := by
    rw [todo, log, show (system.view [] db).standing userId = readStanding current from found]
    exact leaves_updateStatements _ _ _ _ _ _
  status st hst := by
    rw [todo, log] at hst
    exact (mem_updateStatements_status (hst.resolve_right List.not_mem_nil)).2
  membership := .inl (by simp [todo, updateStatements])

/-- A statement of the edit leaves what it knows. -/
theorem Writing.next (h : Writing principal userId payload current db tx)
    (htodo : tx.pc.todo = s :: rest)
    (he : s.effect tx.pc rest n (system.view tx.log db) input = some e) :
    Writing principal userId payload current db
      ⟨e.next, tx.locks ++ system.kept e, tx.log ++ e.writes⟩ := by
  have hedits := h.edits s (by rw [htodo]; exact List.mem_cons_self)
  obtain ⟨hread, hnext⟩ := effect_edits hedits he
  have hmember := effect_membership hedits he
  refine ⟨List.mem_append_left _ h.locked, hread.trans h.read, h.found, h.checked, ?_, ?_, ?_, ?_⟩
  · intro s' hs'
    obtain ⟨hsame, -⟩ | ⟨hrest, -⟩ := hnext
    · exact h.edits s' (by rwa [← hsame])
    · refine h.edits s' ?_
      rw [htodo]
      exact List.mem_cons_of_mem _ (by rwa [← hrest])
  · rw [view_append]
    obtain ⟨hsame, hnone⟩ | ⟨hrest, hstanding⟩ := hnext
    · rw [hsame, hnone]
      exact h.ahead
    · rw [hrest, hstanding, ← h.ahead, htodo]
      rfl
  · rintro status (hmem | hlog)
    · obtain ⟨hsame, -⟩ | ⟨hrest, -⟩ := hnext
      · exact h.status status (.inl (hsame ▸ hmem))
      · exact h.status status (.inl (htodo ▸ List.mem_cons_of_mem _ (hrest ▸ hmem)))
    · obtain hlog | hwrite := List.mem_append.mp hlog
      · exact h.status status (.inr hlog)
      · exact h.status status (.inl (htodo ▸ effect_status he hwrite ▸ List.mem_cons_self))
  · obtain ⟨rfl, hwrites⟩ | ⟨hne, hwrites⟩ := hmember
    · refine .inr fun d => ?_
      rw [view_append, hwrites]
      exact Table.find?_put_self _ _ _
    · obtain hmem | hview := h.membership
      · left
        obtain ⟨hsame, -⟩ | ⟨hrest, -⟩ := hnext
        · rwa [hsame]
        · rw [hrest]
          rw [htodo] at hmem
          exact (List.mem_cons.mp hmem).resolve_left (Ne.symm hne)
      · refine .inr fun d => ?_
        rw [view_append, ← hview d]
        exact Row.membership.inj (row_of_not_written _ hwrites)

/-- An edit goes through its stages in order. -/
theorem Editing.next (h : Editing principal userId payload db tx)
    (hrequest : tx.pc.request = .updateUser principal userId payload)
    (htodo : tx.pc.todo = s :: rest)
    (he : s.effect tx.pc rest n (system.view tx.log db) input = some e) :
    Editing principal userId payload db
      ⟨e.next, tx.locks ++ system.kept e, tx.log ++ e.writes⟩ := by
  cases h with
  | claiming todo log =>
    obtain ⟨rfl, rfl⟩ := List.cons.inj (htodo.symm.trans todo)
    obtain rfl := Option.some.inj he
    exact .locking rfl (List.append_nil _ ▸ log)
  | locking todo log =>
    obtain ⟨rfl, rfl⟩ := List.cons.inj (htodo.symm.trans todo)
    obtain ⟨-, he⟩ := Option.ite_none_right_eq_some.mp he
    obtain rfl := Option.some.inj he
    exact .finding rfl (List.append_nil _ ▸ log)
      (List.mem_append_right _ (List.mem_singleton_self _))
  | finding todo log locked =>
    obtain ⟨rfl, rfl⟩ := List.cons.inj (htodo.symm.trans todo)
    obtain ⟨current, hcurrent, rfl⟩ := Option.map_eq_some_iff.mp he
    rw [log] at hcurrent
    exact .checking current rfl ((List.append_nil _).trans log) (List.mem_append_left _ locked) rfl
      (standing_of_findUser hcurrent)
  | checking current todo log locked read found =>
    obtain ⟨rfl, rfl⟩ := List.cons.inj (htodo.symm.trans todo)
    simp only [Stmt.effect, hrequest, read] at he
    split at he
    · cases he
    · next hchecked =>
      obtain rfl := Option.some.inj he
      exact .writing current (Writing.start (List.mem_append_left _ locked) read found
        ⟨_, hchecked⟩ (List.append_nil _) ((List.append_nil _).trans log))
  | writing current h => exact .writing current (h.next htodo he)

theorem Editing.locked_of_checkUpdate (h : Editing principal userId payload db tx)
    (htodo : tx.pc.todo = .checkUpdate :: rest) : Lock.row (.user userId) ∈ tx.locks := by
  cases h with
  | claiming todo | locking todo | finding todo => cases htodo.symm.trans todo
  | checking current todo log locked => exact locked
  | writing current h => exact h.locked

theorem Editing.writing_of (h : Editing principal userId payload db tx)
    (hwrites : (∃ status, .updateStatus userId status ∈ tx.pc.todo) ∨ tx.log ≠ []) :
    ∃ current, Writing principal userId payload current db tx := by
  cases h with
  | claiming todo log | locking todo log | finding todo log | checking _ todo log =>
    obtain ⟨status, hmem⟩ | hlog := hwrites
    · simp [todo] at hmem
    · exact absurd log hlog
  | writing current h => exact ⟨current, h⟩

/-- What a transaction knows of the frame survives its own statements. -/
theorem Frames.next (h : Frames db tx)
    (he : statement tx.pc n (system.view tx.log db) input = some e) :
    Frames db ⟨e.next, tx.locks ++ system.kept e, tx.log ++ e.writes⟩ := by
  unfold statement at he
  split at he
  · cases he
  next s rest htodo =>
  refine ⟨fun userId role granted hw => ?_, fun userId hdelete => ?_,
    fun principal userId payload hrequest => ?_⟩
  · obtain hw | hw := List.mem_append.mp hw
    · exact (h.roles userId role granted hw).imp (List.mem_append_left _) (List.mem_append_left _)
    · obtain hshared | rfl := effect_role he hw
      · exact .inl (List.mem_append_right _ (List.mem_append_left _ hshared))
      · exact .inr (List.mem_append_left _ (h.deletes userId (htodo ▸ List.mem_cons_self)))
  · obtain hbefore | ⟨rfl, principal, payload, hrequest⟩ := effect_deletes htodo he hdelete
    · exact List.mem_append_left _ (h.deletes userId hbefore)
    · have hedit := h.edit principal userId payload hrequest
      exact List.mem_append_left _ (hedit.locked_of_checkUpdate htodo)
  · have hbefore := (effect_request he).symm.trans hrequest
    exact (h.edit principal userId payload hbefore).next hbefore htodo he

theorem frames_start (db : Database) (request : Request) : Frames db ⟨.start request, [], []⟩ where
  roles _ _ _ hw := absurd hw List.not_mem_nil
  deletes userId hdelete := by
    cases request <;> simp [Proc.start, Request.statements] at hdelete
  edit principal userId payload hrequest := by
    obtain rfl : request = .updateUser principal userId payload := hrequest
    exact .claiming rfl rfl

theorem standing_congr (log : List Write) (h : db'.standing userId = db.standing userId) :
    (system.view log db').standing userId = (system.view log db).standing userId := by
  have hrow (k : Key) (hk : db'.row k = db.row k) :
      (system.view log db').row k = (system.view log db).row k := by
    have hview : system.store.row (system.view log db') k =
      system.store.row (system.view log db) k := row_view_congr log hk
    exact hview
  refine Standing.ext ?_ (funext fun role => ?_)
  · exact Row.user.inj (hrow (.user userId) (congrArg Row.user (congrArg Standing.status h)))
  · exact Row.role.inj (hrow (.role userId (.privileged role))
      (congrArg Row.role (congrFun (congrArg Standing.privileged h) role)))

theorem Editing.congr (h : Editing principal userId payload db tx)
    (hsame : Lock.row (.user userId) ∈ tx.locks → db'.standing userId = db.standing userId) :
    Editing principal userId payload db' tx := by
  cases h with
  | claiming todo log => exact .claiming todo log
  | locking todo log => exact .locking todo log
  | finding todo log locked => exact .finding todo log locked
  | checking current todo log locked read found =>
    exact .checking current todo log locked read ((hsame locked).trans found)
  | writing current h =>
    have hstanding := hsame h.locked
    refine .writing current
      ⟨h.locked, h.read, hstanding.trans h.found, h.checked, h.edits, ?_, h.status, h.membership⟩
    rw [standing_congr tx.log hstanding]
    exact h.ahead

theorem Frames.standing_of_locked (h : Frames db tx) (hcovers : system.Covers tx)
    (hapart : system.apart tx.locks ux.locks = true)
    (hlock : Lock.row (.user userId) ∈ ux.locks) :
    (system.view tx.log db).standing userId = db.standing userId := by
  have hfree (l : Lock) (hl : l ∈ tx.locks) : l.resource ≠ .row (.user userId) := by
    intro hresource
    have hconflict : l.conflicts (.row (.user userId)) = false :=
      apart_iff.mp hapart l hl _ hlock
    simp [Lock.conflicts, Lock.row, hresource] at hconflict
  refine standing_view_of_ne db fun w hw => ⟨fun hkey => ?_, fun role hkey => ?_⟩
  · exact hfree _ (hcovers w hw) (congrArg Resource.row hkey)
  · cases w with
    | role u r granted =>
      cases hkey
      obtain hshared | hrow := h.roles userId role granted hw
      · exact hfree _ hshared rfl
      · exact hfree _ hrow rfl
    | _ => cases hkey

theorem Frames.other (h : Frames db tx) (hu : Frames db ux) (hcovers : system.Covers tx)
    (hapart : system.apart tx.locks ux.locks = true) : Frames (system.view tx.log db) ux where
  roles := hu.roles
  deletes := hu.deletes
  edit principal userId payload hrequest :=
    (hu.edit principal userId payload hrequest).congr fun hlock =>
      h.standing_of_locked hcovers hapart hlock

end

/-! ## Runs -/

/-- No commit takes from the others what they know of the frame. -/
theorem frame_outline : Outline system Free (fun _ _ => True) fun _ db tx => Frames db tx where
  start n db pc _ hstarts := by
    have hstart : decide (pc = .start pc.request) = true := (Bool.and_eq_true_iff.mp hstarts).1
    rw [of_decide_eq_true hstart]
    exact frames_start db pc.request
  next n db tx input e _ h _ he := h.next he
  commit _ _ _ _ _ _ _ _ := trivial
  other s t tx u ux _ _ _ _ _ hapart hcovers _ _ h hu := h.other hu hcovers hapart
  elapse _ _ _ := trivial
  elapses n db tx h := ⟨h.roles, h.deletes, fun principal userId payload hrequest =>
    (h.edit principal userId payload hrequest).congr fun _ => rfl⟩

theorem frames_of_reach {s : State Database Proc Write Lock}
    (h : Reach IsInitial system.step Free s) {t : Nat} {tx : Tx Proc Write Lock}
    (htx : s.txs.find? t = some tx) : Frames s.db tx := by
  exact (frame_outline.invariant (fun _ hs => outlined_start hs trivial) h).knows t tx htx

section
variable {db : Database} {tx : Tx Proc Write Lock} {principal : AccessPrincipal}
  {userId : UserId} {payload : AdminUserUpdateInput} {current : AdminUserRecord}

theorem Editing.ended (h : Editing principal userId payload db tx) (hends : tx.pc.todo = []) :
    ∃ current, Writing principal userId payload current db tx := by
  cases h with
  | claiming todo | locking todo | finding todo | checking _ todo => cases hends.symm.trans todo
  | writing current h => exact ⟨current, h⟩

theorem Writing.keepsFrame_iff (h : Writing principal userId payload current db tx)
    (hends : tx.pc.todo = []) :
    KeepsFrame db (system.view tx.log db) userId payload ↔
      (payload.member = none → db.memberships.find? userId =
        some ⟨current.member, some principal.userId⟩) := by
  have hmembership : (system.view tx.log db).memberships.find? userId =
      some ⟨nextMember payload current, some principal.userId⟩ :=
    h.membership.resolve_left (by rw [hends]; exact List.not_mem_nil) db
  have hstanding : (system.view tx.log db).standing userId = nextStanding payload current := by
    have hahead := h.ahead
    rwa [hends] at hahead
  have hnext (hmember : payload.member = none) : nextMember payload current = current.member := by
    rw [nextMember, hmember]
    rfl
  constructor
  · intro hkeeps hmember
    rw [← hkeeps.membership hmember, hmembership, hnext hmember]
  · intro hsame
    refine ⟨fun hstatus => ?_, fun hroles role => ?_, fun hmember => ?_⟩
    · have heq := (congrArg Standing.status hstanding).trans (nextStanding_status hstatus)
      exact heq.trans (congrArg Standing.status h.found).symm
    · have heq := (congrArg Standing.privileged hstanding).trans (nextStanding_privileged hroles)
      exact congrFun (heq.trans (congrArg Standing.privileged h.found).symm) role
    · rw [hmembership, hsame hmember, hnext hmember]

end

/-- An edit that does not name the membership keeps it just if it is, when the edit commits, as the
edit has read it and granted by the administrator who edits. -/
theorem edit_keeps_frame {s s' : State Database Proc Write Lock}
    (h : Reach IsInitial system.step Free s) {t : Nat} {tx : Tx Proc Write Lock}
    (htx : s.txs.find? t = some tx) {principal : AccessPrincipal} {userId : UserId}
    {payload : AdminUserUpdateInput}
    (hrequest : tx.pc.request = .updateUser principal userId payload)
    (hs : system.step s (.commit t) = some s') :
    KeepsFrame s.db s'.db userId payload ↔
      (payload.member = none → ∃ current, tx.pc.read = some current ∧
        s.db.memberships.find? userId = some ⟨current.member, some principal.userId⟩) := by
  obtain ⟨tx', htx', hs⟩ := Option.bind_eq_some_iff.mp hs
  obtain rfl := Option.some.inj (htx.symm.trans htx')
  obtain ⟨hends, hs⟩ := Option.ite_none_right_eq_some.mp hs
  obtain rfl := Option.some.inj hs
  have htodo : tx.pc.todo = [] := List.isEmpty_iff.mp hends
  have hframes := frames_of_reach h htx
  obtain ⟨current, hwriting⟩ := (hframes.edit principal userId payload hrequest).ended htodo
  refine (hwriting.keepsFrame_iff htodo).trans ⟨fun hsame hmember => ?_, fun hsame hmember => ?_⟩
  · exact ⟨current, hwriting.read, hsame hmember⟩
  · obtain ⟨current', hread, hrow⟩ := hsame hmember
    obtain rfl := Option.some.inj (hwriting.read.symm.trans hread)
    exact hrow

/-! ## A lost membership -/

def editor : AccessPrincipal := ⟨1, 10, [.privileged .admin], "token"⟩

def statusOnly : AdminUserUpdateInput := ⟨some .active, none, none⟩

def revokedMember : State Database Proc Write Lock where
  db :=
    { now := 0
      users := ⟨[(1, .active), (2, .active)], by decide⟩
      userRoles := ⟨[((1, .privileged .admin), ())], by decide⟩
      creatorProfiles := Table.empty
      memberships := ⟨[(2, ⟨false, some 1⟩)], by decide⟩
      sessions := oneAccount.db.sessions }
  txs := Table.empty
  commits := 0

/-- The edit reads the account, and writes it. -/
def editRead : List (Action Proc Input) :=
  .start 1 (.start (.updateUser editor 2 statusOnly)) :: List.replicate 3 (.next 1 anyInput)

def editWrites : List (Action Proc Input) := List.replicate 4 (.next 1 anyInput)

def settlement : List (Action Proc Input) :=
  [.start 2 (.start (.settleMembership 2)), .next 2 anyInput, .commit 2]

theorem calm_runs : (exec system.step revokedMember (editRead ++ editWrites)).isSome = true := by
  decide +kernel

/-- Nobody pays during the edit. -/
def calmEnd : State Database Proc Write Lock :=
  (exec system.step revokedMember (editRead ++ editWrites)).get calm_runs

theorem paid_runs :
    (exec system.step revokedMember (editRead ++ settlement ++ editWrites)).isSome = true := by
  decide +kernel

/-- The account pays during the edit. -/
def paidEnd : State Database Proc Write Lock :=
  (exec system.step revokedMember (editRead ++ settlement ++ editWrites)).get paid_runs

def editEnd : Tx Proc Write Lock where
  pc := ⟨.updateUser editor 2 statusOnly, some ⟨.active, [], false, none⟩, .idle, []⟩
  locks := [.shared 1, .row (.user 2), .row (.user 2), .row (.membership 2)]
  log := [.user 2 .active, .membership 2 ⟨false, some 1⟩]

/-- The edit commits with nobody about and keeps the membership. -/
theorem edit_keeps_frame_calm :
    KeepsFrame calmEnd.db (system.commits calmEnd 1 editEnd).db 2 statusOnly := by
  have hreach : Reach IsInitial system.step Free calmEnd :=
    reach_of_exec (rfl : IsInitial revokedMember) (Option.some_get calm_runs).symm
  have hedit : calmEnd.txs.find? 1 = some editEnd := by decide +kernel
  have hcommit := step_commit hedit (rfl : system.ends editEnd.pc = true)
  exact (edit_keeps_frame hreach hedit rfl hcommit).mpr fun _ => ⟨_, rfl, by decide +kernel⟩

/-- The edit takes back the membership that was paid for while it ran. -/
theorem edit_loses_membership :
    Reach IsInitial system.step Free paidEnd ∧ paidEnd.txs.find? 1 = some editEnd ∧
      system.step paidEnd (.commit 1) = some (system.commits paidEnd 1 editEnd) ∧
      ¬ KeepsFrame paidEnd.db (system.commits paidEnd 1 editEnd).db 2 statusOnly ∧
      paidEnd.db.memberships.find? 2 = some ⟨true, some 1⟩ ∧
      (system.commits paidEnd 1 editEnd).db.memberships.find? 2 = some ⟨false, some 1⟩ := by
  have hreach : Reach IsInitial system.step Free paidEnd :=
    reach_of_exec (rfl : IsInitial revokedMember) (Option.some_get paid_runs).symm
  have hedit : paidEnd.txs.find? 1 = some editEnd := by decide +kernel
  have hcommit := step_commit hedit (rfl : system.ends editEnd.pc = true)
  have hpaid : paidEnd.db.memberships.find? 2 = some ⟨true, some 1⟩ := by decide +kernel
  have hlost : (system.commits paidEnd 1 editEnd).db.memberships.find? 2 =
      some ⟨false, some 1⟩ := by decide +kernel
  refine ⟨hreach, hedit, hcommit, fun hkeeps => ?_, hpaid, hlost⟩
  have hsame := hkeeps.membership rfl
  rw [hpaid, hlost] at hsame
  cases hsame

end FractalStudio.Accounts
