import FractalStudio.Accounts.EditFrame

/-!
# The last administrator

A request never touches the standing of its own principal, so an administrator is left as long as
the principal of every request that takes one away is still an administrator when it commits. The
checks of the service do not see to that: they lock the edited account alone.
-/
namespace FractalStudio.Accounts

open ReadCommitted Transition
open Admin (UserId UserStatus UserRole AdminRole AdminUserRecord AdminUserUpdateInput nextStatus
  nextMember nextPrivileged checkUpdate_ok)

/-- An administrator who can act. -/
def Database.isActiveAdmin (db : Database) (userId : UserId) : Bool :=
  db.isActive userId && db.hasRole userId (.privileged .admin)

/-- The request disables its account or takes the role of an administrator from it. -/
def removesAdmin (payload : AdminUserUpdateInput) : Bool :=
  payload.status = some .disabled || payload.privilegedRoles.any fun roles => .admin ∉ roles

/-- Whoever takes an administrator who can act away is still one when the request commits. -/
def keepsStanding (s : State Database Proc Write Lock) : Action Proc Input → Bool
  | .commit t => (s.txs.find? t).all fun tx =>
    match tx.pc.request with
    | .updateUser principal userId payload =>
      !(removesAdmin payload && s.db.isActiveAdmin userId) || s.db.isActiveAdmin principal.userId
    | _ => true
  | _ => true

/-! ## What takes a standing away -/

/-- The account whose status a write sets or whose role it takes. -/
def Write.takes : Write → Option UserId
  | .user userId _ => some userId
  | .role userId _ false => some userId
  | _ => none

def Stmt.takes : Stmt → Option UserId
  | .updateStatus userId _ => some userId
  | .deletePrivileged userId => some userId
  | _ => none

/-- Only an edit takes something from an account, from the one it names. -/
structure Takes (tx : Tx Proc Write Lock) : Prop where
  log : ∀ w ∈ tx.log, ∀ userId, w.takes = some userId →
    ∃ principal payload, tx.pc.request = .updateUser principal userId payload
  todo : ∀ s ∈ tx.pc.todo, ∀ userId, s.takes = some userId →
    ∃ principal payload, tx.pc.request = .updateUser principal userId payload

section
variable {p : Proc} {rest : List Stmt} {n : Nat} {db : Database} {input : Input} {s : Stmt}
  {e : Effect Proc Write Lock} {tx : Tx Proc Write Lock} {userId : UserId}

theorem effect_takes (h : s.effect p rest n db input = some e) {w : Write} (hw : w ∈ e.writes)
    (htakes : w.takes = some userId) : s.takes = some userId := by
  cases s with
  | findUser u =>
    obtain ⟨current, -, rfl⟩ := Option.map_eq_some_iff.mp h
    cases hw
  | _ => grind [Stmt.effect, reads, Proc.after, triggers, Write.takes, Stmt.takes]

theorem takes_updateStatements {u : UserId} {status : UserStatus} {member : Bool}
    {roles : List AdminRole} {grantedBy : UserId}
    (hs : s ∈ updateStatements u status member roles grantedBy) (htakes : s.takes = some userId) :
    userId = u := by
  have hedits := edits_updateStatements status member roles grantedBy s hs
  cases s with
  | updateStatus | deletePrivileged =>
    exact (Option.some.inj htakes).symm.trans (of_decide_eq_true hedits)
  | _ => cases htakes

/-- A statement takes something only for an edit, from the account that it names. -/
theorem Takes.next (h : Takes tx) (htodo : tx.pc.todo = s :: rest)
    (he : s.effect tx.pc rest n (system.view tx.log db) input = some e) :
    Takes ⟨e.next, tx.locks ++ system.kept e, tx.log ++ e.writes⟩ := by
  have hrequest := effect_request he
  refine ⟨fun w hw userId htakes => ?_, fun s' hs' userId htakes => ?_⟩
  · rw [hrequest]
    obtain hw | hw := List.mem_append.mp hw
    · exact h.log w hw userId htakes
    · exact h.todo s (htodo ▸ List.mem_cons_self) userId (effect_takes he hw htakes)
  · rw [hrequest]
    obtain hbefore | ⟨-, principal, u, payload, _, _, _, hedit, -, hmem⟩ | ⟨u, -, rfl⟩ |
      ⟨u, checked, bearer, existing, -, -, hmem⟩ := effect_todo htodo he hs'
    · exact h.todo s' hbefore userId htakes
    · obtain rfl := takes_updateStatements hmem htakes
      exact ⟨principal, payload, hedit⟩
    · cases htakes
    · obtain ⟨_, rfl⟩ | ⟨_, rfl⟩ | rfl := mem_sessionStatements hmem <;> cases htakes

theorem takes_statements (request : Request) : ∀ s ∈ request.statements, s.takes = none := by
  cases request <;> simp [Request.statements, Stmt.takes]

theorem takes_start (request : Request) : Takes ⟨.start request, [], []⟩ where
  log _ hw := absurd hw List.not_mem_nil
  todo s hs _ htakes := nomatch (takes_statements request s hs).symm.trans htakes

/-- Whom no write takes anything from stays an administrator. -/
theorem isActiveAdmin_view {log : List Write} (h : ∀ w ∈ log, w.takes ≠ some userId)
    (hadmin : db.isActiveAdmin userId = true) : (system.view log db).isActiveAdmin userId = true := by
  simp only [Database.isActiveAdmin, Database.isActive, Bool.and_eq_true, decide_eq_true_eq]
    at hadmin ⊢
  constructor
  · refine (status_view_of_ne db fun w hw hkey => ?_).trans hadmin.1
    cases w <;> cases hkey
    exact h _ hw rfl
  · obtain hsame | ⟨granted, hw, hvalue⟩ := hasRole_view_cases log userId (.privileged .admin)
    · exact (hsame db).trans hadmin.2
    · cases granted with
      | true => exact hvalue db
      | false => exact absurd rfl (h _ hw)

theorem isActiveAdmin_eq : db.isActiveAdmin userId =
    ((db.standing userId).status = some .active && (db.standing userId).privileged .admin) := rfl

variable {principal : AccessPrincipal} {payload : AdminUserUpdateInput} {current : AdminUserRecord}

theorem Writing.isActiveAdmin (h : Writing principal userId payload current db tx)
    (hends : tx.pc.todo = []) (hstatus : nextStatus payload current = .active)
    (hrole : .admin ∈ nextPrivileged payload current) :
    (system.view tx.log db).isActiveAdmin userId = true := by
  have hahead : (system.view tx.log db).standing userId = nextStanding payload current := by
    have hleaves := h.ahead
    rwa [hends] at hleaves
  rw [isActiveAdmin_eq, hahead]
  simp [nextStanding, hstatus, hrole]

theorem Writing.keeps (h : Writing principal userId payload current db tx)
    (hadmin : db.isActiveAdmin userId = true) (hkeeps : removesAdmin payload = false) :
    nextStatus payload current = .active ∧ .admin ∈ nextPrivileged payload current := by
  rw [isActiveAdmin_eq, h.found] at hadmin
  simp only [readStanding, Bool.and_eq_true, decide_eq_true_eq, Option.some.injEq] at hadmin
  rw [removesAdmin, Bool.or_eq_false_iff] at hkeeps
  obtain ⟨henabled, hroles⟩ := hkeeps
  constructor
  · unfold nextStatus
    cases hp : payload.status with
    | none => simpa using hadmin.1
    | some status =>
      cases status with
      | active => rfl
      | disabled => simp [hp] at henabled
  · unfold nextPrivileged
    cases hp : payload.privilegedRoles with
    | none => simp [AdminUserRecord.privileged, hadmin.2]
    | some roles => simpa [hp] using hroles

/-- An edit that names an administrator leaves one: that one, or its principal. -/
theorem admin_left {s : State Database Proc Write Lock} {t : Nat} (htx : s.txs.find? t = some tx)
    (hok : keepsStanding s (.commit t) = true) (hends : tx.pc.todo = []) (htakes : Takes tx)
    (hrequest : tx.pc.request = .updateUser principal userId payload)
    (hwriting : Writing principal userId payload current s.db tx)
    (hadmin : s.db.isActiveAdmin userId = true) :
    ∃ u, (system.view tx.log s.db).isActiveAdmin u = true := by
  cases hremoves : removesAdmin payload with
  | false =>
    obtain ⟨hstatus, hrole⟩ := hwriting.keeps hadmin hremoves
    exact ⟨userId, hwriting.isActiveAdmin hends hstatus hrole⟩
  | true =>
    have hprincipal : s.db.isActiveAdmin principal.userId = true := by
      simpa [keepsStanding, htx, hrequest, hremoves, hadmin] using hok
    refine ⟨principal.userId, ?_⟩
    by_cases hself : userId = principal.userId
    · obtain ⟨admins, hchecked⟩ := hwriting.checked
      obtain ⟨hstatus, hrole⟩ := checkUpdate_ok hchecked hself
      exact hself ▸ hwriting.isActiveAdmin hends hstatus hrole
    · refine isActiveAdmin_view (fun w hw htaken => hself ?_) hprincipal
      obtain ⟨principal', payload', hedit⟩ := htakes.log w hw _ htaken
      exact (Request.updateUser.inj (hrequest.symm.trans hedit)).2.1

end

/-! ## Runs -/

/-- Every commit of a run that keeps the standing leaves an administrator. -/
theorem admin_outline : Outline system (fun s a => keepsStanding s a = true)
    (fun _ db => ∃ userId, db.isActiveAdmin userId = true)
    fun _ db tx => Frames db tx ∧ Takes tx where
  start n db pc _ hstarts := by
    refine ⟨frame_outline.start n db pc trivial hstarts, ?_⟩
    have hstart : decide (pc = .start pc.request) = true := (Bool.and_eq_true_iff.mp hstarts).1
    rw [of_decide_eq_true hstart]
    exact takes_start pc.request
  next n db tx input e _ h _ he := by
    refine ⟨h.1.next he, ?_⟩
    have he' : statement tx.pc n (system.view tx.log db) input = some e := he
    unfold statement at he'
    split at he'
    · cases he'
    · next s rest htodo => exact h.2.next htodo he'
  commit s t tx hok htx hends hrows h := by
    have htodo : tx.pc.todo = [] := List.isEmpty_iff.mp hends
    obtain ⟨userId, hadmin⟩ := hrows
    by_cases htaken : ∃ w ∈ tx.log, w.takes = some userId
    · obtain ⟨w, hw, htakes⟩ := htaken
      obtain ⟨principal, payload, hrequest⟩ := h.2.log w hw userId htakes
      obtain ⟨current, hwriting⟩ := (h.1.edit principal userId payload hrequest).ended htodo
      exact admin_left htx hok htodo h.2 hrequest hwriting hadmin
    · exact ⟨userId, isActiveAdmin_view (fun w hw htakes => htaken ⟨w, hw, htakes⟩) hadmin⟩
  other _ _ _ _ _ _ _ _ _ _ hapart hcovers _ _ h hu := ⟨h.1.other hu.1 hcovers hapart, hu.2⟩
  elapse _ _ h := h
  elapses n db tx h := ⟨frame_outline.elapses n db tx h.1, h.2⟩

/-- No request is open, and there is an administrator who can act. -/
def AdminAtFirst (s : State Database Proc Write Lock) : Prop :=
  IsInitial s ∧ ∃ userId, s.db.isActiveAdmin userId = true

/-- An administrator who can act is left in every run in which whoever takes one away still is one
at the commit. -/
theorem admin_remains {s : State Database Proc Write Lock}
    (h : Reach AdminAtFirst system.step (fun s a => keepsStanding s a = true) s) :
    ∃ userId, s.db.isActiveAdmin userId = true :=
  (admin_outline.invariant (fun _ hs => outlined_start hs.1 hs.2) h).rows

/-! ## Two administrators -/

def twoAdmins : State Database Proc Write Lock where
  db :=
    { now := 0
      users := ⟨[(2, .active), (1, .active)], by decide⟩
      userRoles := ⟨[((1, .privileged .admin), ()), ((2, .privileged .admin), ())], by decide⟩
      creatorProfiles := Table.empty
      memberships := Table.empty
      sessions := ⟨[(10, ⟨1, "token", 100, false, none, 0⟩), (11, ⟨2, "key", 100, false, none, 0⟩)],
        by decide⟩ }
  txs := Table.empty
  commits := 0

theorem adminAtFirst_twoAdmins : AdminAtFirst twoAdmins := ⟨rfl, 1, rfl⟩

def disableUser : AdminUserUpdateInput := ⟨some .disabled, none, none⟩

def disables (t : Nat) (principal : AccessPrincipal) (userId : UserId) : Action Proc Input :=
  .start t (.start (.updateUser principal userId disableUser))

/-- The statements of an edit that keeps the role of an administrator, and its commit. -/
def editRuns (t : Nat) : List (Action Proc Input) :=
  List.replicate 11 (.next t anyInput) ++ [.commit t]

/-- One disables the other. -/
def disabled : List (Action Proc Input) := disables 1 editor 2 :: editRuns 1

theorem disabled_runs :
    (exec (guarded system.step keepsStanding) twoAdmins disabled).isSome = true := by
  decide +kernel

def disabledEnd : State Database Proc Write Lock :=
  (exec (guarded system.step keepsStanding) twoAdmins disabled).get disabled_runs

/-- The second administrator is disabled, the first is left. -/
theorem admin_remains_disabled : disabledEnd.db.isActiveAdmin 2 = false ∧
    ∃ userId, disabledEnd.db.isActiveAdmin userId = true := by
  have hreach : Reach AdminAtFirst system.step (fun s a => keepsStanding s a = true) disabledEnd :=
    reach_of_guarded_exec adminAtFirst_twoAdmins (Option.some_get disabled_runs).symm
  exact ⟨by decide +kernel, admin_remains hreach⟩

/-- Each disables the other, the second after the first has disabled it. -/
def crossed : List (Action Proc Input) :=
  [disables 1 editor 2, disables 2 ⟨2, 11, [.privileged .admin], "key"⟩ 1] ++ editRuns 1 ++
    editRuns 2

theorem crossed_runs : (exec system.step twoAdmins crossed).isSome = true := by
  decide +kernel

def crossedEnd : State Database Proc Write Lock := (exec system.step twoAdmins crossed).get crossed_runs

/-- Two administrators can lock each other out. -/
theorem admins_lock_each_other_out : ¬ ∀ s, Reach AdminAtFirst system.step Free s →
    ∃ userId, s.db.isActiveAdmin userId = true := by
  intro h
  have hreach : Reach AdminAtFirst system.step Free crossedEnd :=
    reach_of_exec adminAtFirst_twoAdmins (Option.some_get crossed_runs).symm
  obtain ⟨userId, hadmin⟩ := h crossedEnd hreach
  have hnone : ∀ x ∈ crossedEnd.db.users.rows, x.2 ≠ .active := by decide +kernel
  rw [isActiveAdmin_eq, Bool.and_eq_true, decide_eq_true_eq] at hadmin
  exact hnone (userId, .active) (Table.find?_eq_some_iff.mp hadmin.1) rfl

end FractalStudio.Accounts
