import FractalStudio.Accounts.SessionRows

/-!
# Sessions that have been ended

A logout ends a session, and an edit that disables an account ends all its sessions. A session that
is created of a disabled account does not last: its transaction looks at the account once more. So
what has ended stays dead, and nothing is rotated from it, if no transaction rotates a session while
it logs out, and none is still to create a session of an account that is enabled again.
-/
namespace FractalStudio.Accounts

open ReadCommitted Transition
open Admin (UserId UserStatus)

def Accepted (db : Database) (id : SessionId) : Prop :=
  ∃ now token principal, db.resolve now token = some principal ∧ principal.sessionId = id

/-- Neither these sessions nor those that are rotated from them later are accepted. -/
structure StayDead (dead : SessionId → Prop) (db db' : Database) : Prop where
  sessions : ∀ id, dead id → ¬ Accepted db' id
  heirs : ∀ id x, db'.sessions.find? id = some x → db.sessions.find? id = none →
    ∀ o, x.rotatedFrom = some o → dead o → ¬ Accepted db' id

/-! ## The condition -/

def Stmt.rotates (id : SessionId) : Stmt → Bool
  | .createSession _ rotatedFrom _ => rotatedFrom = some id
  | _ => false

def Write.rotates (db : Database) (id : SessionId) : Write → Bool
  | .session new x => (db.sessions.find? new).isNone && x.rotatedFrom = some id
  | _ => false

/-- A transaction is to create a session that is rotated from this one, or has done so. -/
def rotating (db : Database) (id : SessionId) (ux : Tx Proc Write Lock) : Bool :=
  ux.pc.todo.any (Stmt.rotates id) || ux.log.any (Write.rotates db id)

/-- The account of a statement of `login` after the check of the password, or of a rotation. -/
def Stmt.signsIn : Stmt → Option UserId
  | .resolveSession userId _ => some userId
  | .createSession userId _ _ => some userId
  | _ => none

/-- A disabled account is active again. -/
def enables (db : Database) (tx : Tx Proc Write Lock) (userId : UserId) : Bool :=
  decide (.user userId .active ∈ tx.log) && !db.isActive userId

/-- A transaction is to make use of what another one ends, or of what it enables again. -/
def outlives (db : Database) (tx ux : Tx Proc Write Lock) : Bool :=
  (match tx.pc.request with
    | .logout principal => rotating db principal.sessionId ux
    | _ => false) ||
  ux.pc.todo.any fun s => s.signsIn.any (enables db tx)

/-- No other open transaction outlives what a commit ends or enables. -/
def undisturbed (s : State Database Proc Write Lock) : Action Proc Input → Bool
  | .commit t => (s.txs.find? t).all fun tx => !s.txs.any fun u ux => u ≠ t && outlives s.db tx ux
  | _ => true

/-! ## What stays of an end -/

/-- What a commit has ended, and what has become of it since: `dead` are the sessions, and to
`barred` accounts the password has to be checked again. -/
structure Ended (dead : SessionId → Prop) (barred : UserId → Prop) (n : Nat) (first db : Database) :
    Prop where
  follows : ∀ id, Follows (first.sessions.find? id) (db.sessions.find? id)
  revoked : ∀ id, dead id → ∃ x, db.sessions.find? id = some x ∧ x.revoked = true
  heirs : ∀ id x, db.sessions.find? id = some x → first.sessions.find? id = none →
    ∀ o, x.rotatedFrom = some o → ¬ dead o
  checks : ∀ id x, db.sessions.find? id = some x → first.sessions.find? id = none →
    barred x.userId → n ≤ x.checked

/-- A transaction that makes no use of what has ended. -/
structure Harmless (dead : SessionId → Prop) (barred : UserId → Prop) (n : Nat) (first db : Database)
    (tx : Tx Proc Write Lock) : Prop where
  view : Ended dead barred n first (system.view tx.log db)
  rotates : ∀ userId o checked, .createSession userId (some o) checked ∈ tx.pc.todo → ¬ dead o
  creates : ∀ userId rotatedFrom checked, .createSession userId rotatedFrom checked ∈ tx.pc.todo →
    barred userId → n ≤ checked
  resolves : ∀ userId checked, .resolveSession userId checked ∈ tx.pc.todo →
    barred userId → n ≤ checked

/-- A transaction that has checked an account before it was disabled: it cannot commit, since its
last look at the account fails until that is enabled again. -/
structure Stuck (db : Database) (tx : Tx Proc Write Lock) (userId : UserId) : Prop where
  disabled : db.isActive userId = false
  signer : ∀ principal u payload, tx.pc.request ≠ .updateUser principal u payload
  closes : .requireActive userId ∈ tx.pc.todo ∨
    ∃ checked, .resolveSession userId checked ∈ tx.pc.todo
  held : (∃ s ∈ tx.pc.todo, s.signsIn = some userId) ∨ Lock.shared userId ∈ tx.locks

/-- What a transaction that is open at the end or starts later may be. -/
structure Remaining (dead : SessionId → Prop) (barred : UserId → Prop) (n : Nat)
    (first db : Database) (tx : Tx Proc Write Lock) : Prop where
  knows : Knows db tx
  state : Harmless dead barred n first db tx ∨ ∃ userId, barred userId ∧ Stuck db tx userId

section
variable {dead : SessionId → Prop} {barred : UserId → Prop} {n m : Nat} {first db : Database}
  {tx ux : Tx Proc Write Lock} {input : Input} {e : Effect Proc Write Lock}

theorem Ended.not_dead (h : Ended dead barred n first db) {now : Nat} {token : String}
    {x : AccessPrincipal} (hx : db.resolve now token = some x) : ¬ dead x.sessionId := by
  intro hdead
  obtain ⟨y, hy, -, hlive⟩ := resolve_eq_some hx
  obtain ⟨z, hz, hrevoked⟩ := h.revoked _ hdead
  obtain rfl := Option.some.inj (hy.symm.trans hz)
  rw [hlive] at hrevoked
  cases hrevoked

theorem Harmless.next_view (h : Harmless dead barred n first db tx) {s : Stmt} {rest : List Stmt}
    (htodo : tx.pc.todo = s :: rest)
    (he : s.effect tx.pc rest m (system.view tx.log db) input = some e) :
    Ended dead barred n first (system.view (tx.log ++ e.writes) db) := by
  rw [view_append]
  have hfollows := effect_follows he
  -- A session is an old one, revoked at most, or the statement at the head has created it.
  have hcases (id : SessionId) (x : Session)
      (hx : (system.view e.writes (system.view tx.log db)).sessions.find? id = some x) :
      (∃ old, (system.view tx.log db).sessions.find? id = some old ∧ old.userId = x.userId ∧
        old.rotatedFrom = x.rotatedFrom ∧ old.checked = x.checked) ∨
      s = .createSession x.userId x.rotatedFrom x.checked := by
    obtain hsame | ⟨y, hy, hvalue⟩ := session_view_cases e.writes id
    · rw [hsame] at hx
      exact .inl ⟨x, hx, rfl, rfl, rfl⟩
    · obtain rfl := Option.some.inj ((hvalue _).symm.trans hx)
      obtain ⟨old, hold, rfl⟩ | ⟨-, hs, -⟩ := effect_session he hy
      · exact .inl ⟨old, hold, rfl, rfl, rfl⟩
      · exact .inr hs
  refine ⟨fun id => (h.view.follows id).trans (hfollows id), fun id hdead => ?_,
    fun id x hx hnew o ho => ?_, fun id x hx hnew hbarred => ?_⟩
  · obtain ⟨x, hx, hrevoked⟩ := h.view.revoked id hdead
    obtain ⟨r, hr, hmono⟩ := hfollows id x hx
    exact ⟨_, hr, hmono hrevoked⟩
  · obtain ⟨old, hold, -, hrotated, -⟩ | rfl := hcases id x hx
    · exact h.view.heirs id old hold hnew o (hrotated.trans ho)
    · exact h.rotates x.userId o x.checked (by rw [htodo, ← ho]; exact List.mem_cons_self)
  · obtain ⟨old, hold, huser, -, hchecked⟩ | rfl := hcases id x hx
    · rw [← hchecked]
      exact h.view.checks id old hold hnew (huser ▸ hbarred)
    · exact h.creates x.userId x.rotatedFrom x.checked (htodo ▸ List.mem_cons_self) hbarred

/-- A harmless transaction stays harmless through its statements. -/
theorem Harmless.next (h : Harmless dead barred n first db tx) (hm : n ≤ m)
    (he : statement tx.pc m (system.view tx.log db) input = some e) :
    Harmless dead barred n first db ⟨e.next, tx.locks ++ system.kept e, tx.log ++ e.writes⟩ := by
  unfold statement at he
  split at he
  · cases he
  next s rest htodo =>
  refine ⟨h.next_view htodo he, fun userId o checked hmem => ?_,
    fun userId rotatedFrom checked hmem hbarred => ?_, fun userId checked hmem hbarred => ?_⟩
  · obtain hbefore | ⟨-, _, _, _, _, _, _, -, -, hmem⟩ | ⟨_, -, heq⟩ |
      ⟨u, checked', bearer, existing, -, hresolve, hmem⟩ := effect_todo htodo he hmem
    · exact h.rotates userId o checked hbefore
    · cases edits_updateStatements _ _ _ _ _ hmem
    · cases heq
    · obtain ⟨-, -, hrotated⟩ := create_mem_sessionStatements hmem
      obtain ⟨x, hx, -, rfl⟩ := hrotated o rfl
      obtain ⟨now, token, hx⟩ := hresolve x hx
      exact h.view.not_dead hx
  · obtain hbefore | ⟨-, _, _, _, _, _, _, -, -, hmem⟩ | ⟨_, -, heq⟩ |
      ⟨u, checked', bearer, existing, rfl, hresolve, hmem⟩ := effect_todo htodo he hmem
    · exact h.creates userId rotatedFrom checked hbefore hbarred
    · cases edits_updateStatements _ _ _ _ _ hmem
    · cases heq
    · obtain ⟨rfl, rfl, -⟩ := create_mem_sessionStatements hmem
      exact h.resolves userId checked (htodo ▸ List.mem_cons_self) hbarred
  · obtain hbefore | ⟨-, _, _, _, _, _, _, -, -, hmem⟩ | ⟨_, -, heq⟩ |
      ⟨u, checked', bearer, existing, -, -, hmem⟩ := effect_todo htodo he hmem
    · exact h.resolves userId checked hbefore hbarred
    · cases edits_updateStatements _ _ _ _ _ hmem
    · obtain ⟨-, rfl⟩ := Stmt.resolveSession.inj heq
      exact hm
    · exact absurd hmem (not_resolve_sessionStatements u checked' bearer existing userId checked)

theorem harmless_start (hdb : Ended dead barred n first db) (hm : n ≤ m) {request : Request}
    (hadmitted : request.admitted m db = true) :
    Harmless dead barred n first db ⟨.start request, [], []⟩ := by
  have hcreate (userId : UserId) (rotatedFrom : Option SessionId) (checked : Nat)
      (hmem : .createSession userId rotatedFrom checked ∈ request.statements) :
      n ≤ checked ∧ ∀ o, rotatedFrom = some o → ¬ dead o := by
    cases request with
    | upsertCreatorProfile principal profile checked' =>
      simp only [Request.statements, List.mem_cons, reduceCtorEq, false_or,
        Stmt.createSession.injEq, List.not_mem_nil, or_false] at hmem
      obtain ⟨rfl, rfl, rfl⟩ := hmem
      simp only [Request.admitted, Bool.and_eq_true, decide_eq_true_eq] at hadmitted
      refine ⟨hadmitted.2 ▸ hm, fun o ho => ?_⟩
      obtain rfl := Option.some.inj ho
      exact hdb.not_dead (of_decide_eq_true hadmitted.1.1)
    | _ => simp [Request.statements] at hmem
  refine ⟨hdb, fun userId o checked hmem => ?_, fun userId rotatedFrom checked hmem _ => ?_,
    fun userId checked hmem => ?_⟩
  · exact (hcreate userId _ checked hmem).2 o rfl
  · exact (hcreate userId rotatedFrom checked hmem).1
  · cases request <;> simp [Proc.start, Request.statements] at hmem

theorem not_outlives {s : State Database Proc Write Lock} {t u : Nat} (ht : s.txs.find? t = some tx)
    (hok : undisturbed s (.commit t) = true) (hu : s.txs.find? u = some ux) (hne : t ≠ u) :
    outlives s.db tx ux = false := by
  rw [undisturbed, ht, Option.all_some, Bool.not_eq_true'] at hok
  have hall := Table.any_eq_false.mp hok u ux hu
  simpa [Ne.symm hne] using hall

theorem Ended.congr {db' : Database} (h : Ended dead barred n first db)
    (hsame : ∀ id, db'.sessions.find? id = db.sessions.find? id) :
    Ended dead barred n first db' where
  follows id := hsame id ▸ h.follows id
  revoked id hdead := hsame id ▸ h.revoked id hdead
  heirs id x hx := h.heirs id x (hsame id ▸ hx)
  checks id x hx := h.checks id x (hsame id ▸ hx)

theorem Harmless.other (h : Harmless dead barred n first db tx) (hknows : Knows db tx)
    (hu : Harmless dead barred n first db ux) :
    Harmless dead barred n first (system.view tx.log db) ux := by
  have hfollows (id : SessionId) : Follows ((system.view ux.log db).sessions.find? id)
      ((system.view ux.log (system.view tx.log db)).sessions.find? id) :=
    (hknows.sessions.follows id).view
  -- A session is one that either of the two sees.
  have hcases (id : SessionId) (x : Session)
      (hx : (system.view ux.log (system.view tx.log db)).sessions.find? id = some x) :
      (system.view ux.log db).sessions.find? id = some x ∨
        (system.view tx.log db).sessions.find? id = some x := by
    obtain hsame | ⟨y, -, hvalue⟩ := session_view_cases ux.log id
    · exact .inr (hsame _ ▸ hx)
    · exact .inl ((hvalue db).trans ((hvalue _).symm.trans hx))
  refine ⟨⟨fun id => (hu.view.follows id).trans (hfollows id), fun id hdead => ?_,
    fun id x hx => ?_, fun id x hx => ?_⟩, hu.rotates, hu.creates, hu.resolves⟩
  · obtain ⟨x, hx, hrevoked⟩ := hu.view.revoked id hdead
    obtain ⟨r, hr, hmono⟩ := hfollows id x hx
    exact ⟨_, hr, hmono hrevoked⟩
  · exact (hcases id x hx).elim (hu.view.heirs id x) (h.view.heirs id x)
  · exact (hcases id x hx).elim (hu.view.checks id x) (h.view.checks id x)

/-- A status that a transaction leaves is one that it has written, or the one there was. -/
theorem status_view_cases (log : List Write) (userId : UserId) :
    (∀ db, (system.view log db).users.find? userId = db.users.find? userId) ∨
      ∃ status, .user userId status ∈ log ∧
        ∀ db, (system.view log db).users.find? userId = some status := by
  obtain hsame | ⟨w, hw, hkey, hvalue⟩ := row_written_cases log (.user userId)
  · exact .inl fun db => Row.user.inj (hsame db)
  · cases w <;> cases hkey
    exact .inr ⟨_, hw, fun db => Row.user.inj (hvalue db)⟩

/-- Only an edit writes a status. -/
theorem isActive_view_of_signer (hknows : Knows db tx)
    (hsigner : ∀ principal u payload, tx.pc.request ≠ .updateUser principal u payload)
    (userId : UserId) : (system.view tx.log db).isActive userId = db.isActive userId := by
  obtain hsame | ⟨status, hlog, -⟩ := status_view_cases tx.log userId
  · rw [Database.isActive, hsame]
    rfl
  · obtain ⟨⟨principal, payload, hrequest⟩, -⟩ :=
      hknows.sessions.status userId status (.inr hlog)
    exact absurd hrequest (hsigner principal userId payload)

theorem Stuck.next {userId : UserId} (h : Stuck db tx userId) (hknows : Knows db tx)
    (he : statement tx.pc m (system.view tx.log db) input = some e) :
    Stuck db ⟨e.next, tx.locks ++ system.kept e, tx.log ++ e.writes⟩ userId := by
  unfold statement at he
  split at he
  · cases he
  next s rest htodo =>
  have hrest := (effect_suffix htodo he).subset
  -- A session is resolved and created before the last look at the account.
  have hresolve {checked : Nat} (hs : s = .resolveSession userId checked) :
      (∃ replaced, .createSession userId replaced checked ∈ e.next.todo) ∧
        .requireActive userId ∈ e.next.todo := by
    subst hs
    simp only [Stmt.effect] at he
    split at he
    · obtain rfl := Option.some.inj he
      obtain ⟨⟨replaced, hcreate⟩, hclose⟩ := closes_sessionStatements userId checked _ _
      exact ⟨⟨replaced, List.mem_append_left _ hcreate⟩, List.mem_append_left _ hclose⟩
    · cases he
  refine ⟨h.disabled, fun principal u payload => ?_, ?_, ?_⟩
  · rw [effect_request he]
    exact h.signer principal u payload
  · have hclose := h.closes
    rw [htodo] at hclose
    obtain hmem | ⟨checked, hmem⟩ := hclose
    · obtain rfl | hmem := List.mem_cons.mp hmem
      · obtain ⟨hactive, -⟩ := Option.ite_none_right_eq_some.mp he
        rw [isActive_view_of_signer hknows h.signer, h.disabled] at hactive
        cases hactive
      · exact .inl (hrest hmem)
    · obtain hs | hmem := List.mem_cons.mp hmem
      · exact .inl (hresolve hs.symm).2
      · exact .inr ⟨checked, hrest hmem⟩
  · obtain ⟨s', hmem, hsigns⟩ | hlock := h.held
    · obtain rfl | hmem := List.mem_cons.mp (htodo ▸ hmem)
      · cases s' with
        | resolveSession u checked =>
          obtain rfl := Option.some.inj hsigns
          obtain ⟨⟨replaced, hcreate⟩, -⟩ := hresolve rfl
          exact .inl ⟨_, hcreate, rfl⟩
        | createSession u rotatedFrom checked =>
          obtain rfl := Option.some.inj hsigns
          obtain ⟨-, he⟩ := Option.ite_none_right_eq_some.mp he
          obtain rfl := Option.some.inj he
          exact .inr (List.mem_append_right _ (List.mem_append_left _ (List.mem_singleton_self _)))
        | _ => cases hsigns
      · exact .inl ⟨s', hrest hmem, hsigns⟩
    · exact .inr (List.mem_append_left _ hlock)

/-- What would enable the account waits for the lock of a session that has been created, and the
condition excludes it while one is still to come. -/
theorem Stuck.other {userId : UserId} (h : Stuck db ux userId) (hcovers : system.Covers tx)
    (hapart : system.apart tx.locks ux.locks = true) (hquiet : outlives db tx ux = false) :
    Stuck (system.view tx.log db) ux userId := by
  refine ⟨?_, h.signer, h.closes, h.held⟩
  obtain hsame | ⟨status, hlog, hvalue⟩ := status_view_cases tx.log userId
  · rw [Database.isActive, hsame]
    exact h.disabled
  rw [Database.isActive, hvalue]
  cases status with
  | disabled => rfl
  | active =>
    obtain ⟨s, hs, hsigns⟩ | hlock := h.held
    · have hnone := List.any_eq_false.mp (Bool.or_eq_false_iff.mp hquiet).2 s hs
      simp [hsigns, enables, hlog, h.disabled] at hnone
    · exact absurd hlock (not_shared_of_locked (apart_comm hapart) (hcovers _ hlog))

/-- A stuck transaction does not commit. -/
theorem Remaining.ended (h : Remaining dead barred n first db tx)
    (hends : system.ends tx.pc = true) : Harmless dead barred n first db tx := by
  obtain hfree | ⟨userId, -, hstuck⟩ := h.state
  · exact hfree
  · have hdone : tx.pc.todo = [] := List.isEmpty_iff.mp hends
    have hclose := hstuck.closes
    simp [hdone] at hclose

/-- No commit of an undisturbed run revives an ended session. -/
theorem ended_outline (dead : SessionId → Prop) (barred : UserId → Prop) (n : Nat)
    (first : Database) :
    Outline system (fun s a => undisturbed s a = true)
      (fun m db => n ≤ m ∧ Ended dead barred n first db)
      fun _ db tx => Remaining dead barred n first db tx where
  start m db pc hdb hstarts := by
    have hknows := knows_outline.start m db pc trivial hstarts
    obtain ⟨hstart, hadmitted⟩ := Bool.and_eq_true_iff.mp hstarts
    rw [of_decide_eq_true hstart] at hknows ⊢
    exact ⟨hknows, .inl (harmless_start hdb.2 hdb.1 hadmitted)⟩
  next m db tx input e hdb h hcovers he := by
    refine ⟨knows_outline.next m db tx input e trivial h.knows hcovers he, ?_⟩
    obtain hfree | ⟨userId, hbarred, hstuck⟩ := h.state
    · exact .inl (hfree.next hdb.1 he)
    · exact .inr ⟨userId, hbarred, hstuck.next h.knows he⟩
  commit s t tx _ _ hends hdb h := ⟨Nat.le_succ_of_le hdb.1, (h.ended hends).view⟩
  other s t tx u ux hok ht hu hne hends hapart hcovers hcovered _ h hu' := by
    refine ⟨knows_outline.other s t tx u ux trivial ht hu hne hends hapart hcovers hcovered
      trivial h.knows hu'.knows, ?_⟩
    obtain hfree | ⟨userId, hbarred, hstuck⟩ := hu'.state
    · exact .inl ((h.ended hends).other h.knows hfree)
    · exact .inr ⟨userId, hbarred, hstuck.other hcovers hapart (not_outlives ht hok hu hne)⟩
  elapse m db hdb := ⟨hdb.1, hdb.2.congr fun _ => rfl⟩
  elapses m db tx h := by
    refine ⟨knows_outline.elapses m db tx h.knows, h.state.imp (fun hfree => ?_)
      fun ⟨userId, hbarred, hstuck⟩ => ⟨userId, hbarred, hstuck.disabled, hstuck.signer,
        hstuck.closes, hstuck.held⟩⟩
    exact ⟨hfree.view.congr (view_sessions_congr tx.log rfl), hfree.rotates, hfree.creates,
      hfree.resolves⟩

end

/-! ## Ends -/

section
variable {s : State Database Proc Write Lock} {t : Nat} {tx : Tx Proc Write Lock}
  {dead : SessionId → Prop} {barred : UserId → Prop}

theorem ended_of_commit (h : Reach IsInitial system.step Free s)
    (htx : s.txs.find? t = some tx) (hends : system.ends tx.pc = true)
    (hrevoked : ∀ id, dead id →
      ∃ x, (system.view tx.log s.db).sessions.find? id = some x ∧ x.revoked = true)
    (hothers : ∀ u ux, s.txs.find? u = some ux → u ≠ t → Knows (system.view tx.log s.db) ux →
      Harmless dead barred (s.commits + 1) (system.view tx.log s.db) (system.view tx.log s.db) ux ∨
        ∃ userId, barred userId ∧ Stuck (system.view tx.log s.db) ux userId)
    {s' : State Database Proc Write Lock}
    (hlater : Later system.step (fun s a => undisturbed s a = true) (system.commits s t tx) s') :
    Ended dead barred (s.commits + 1) (system.view tx.log s.db) s'.db := by
  have hcommit := step_commit htx hends
  have hknows := knows_of_reach (h.next trivial hcommit)
  have hfirst : Outlined system
      (fun m db => s.commits + 1 ≤ m ∧
        Ended dead barred (s.commits + 1) (system.view tx.log s.db) db)
      (fun _ db tx' => Remaining dead barred (s.commits + 1) (system.view tx.log s.db) db tx')
      (system.commits s t tx) := by
    refine ⟨hknows.sound, ⟨Nat.le_refl _, fun id => .refl _, hrevoked, ?_, ?_⟩, ?_⟩
    · intro id x hx hnone
      cases hnone.symm.trans hx
    · intro id x hx hnone
      cases hnone.symm.trans hx
    · intro u ux hu
      obtain ⟨hne, hu'⟩ := Table.find?_of_erase hu
      exact ⟨hknows.knows u ux hu, hothers u ux hu' hne (hknows.knows u ux hu)⟩
  have hlast := hlater.invariant (fun s a s' hs hok hstep =>
    (ended_outline dead barred _ _).step hs hok hstep) hfirst
  exact hlast.rows.2

theorem not_accepted {db : Database} {id : SessionId} {x : Session}
    (hx : db.sessions.find? id = some x) (hrevoked : x.revoked = true) : ¬ Accepted db id := by
  rintro ⟨now, token, principal, hresolve, rfl⟩
  obtain ⟨y, hy, -, hlive⟩ := resolve_eq_some hresolve
  obtain rfl := Option.some.inj (hx.symm.trans hy)
  rw [hlive] at hrevoked
  cases hrevoked

theorem Ended.stayDead {n : Nat} {first db : Database} (h : Ended dead barred n first db) :
    StayDead dead first db where
  sessions id hdead := by
    obtain ⟨x, hx, hrevoked⟩ := h.revoked id hdead
    exact not_accepted hx hrevoked
  heirs id x hx hnew o ho hdead := absurd hdead (h.heirs id x hx hnew o ho)

theorem ended_view {ux : Tx Proc Write Lock} {first : Database} {n : Nat} (hknows : Knows first ux)
    (hrevoked : ∀ id, dead id → ∃ x, first.sessions.find? id = some x ∧ x.revoked = true)
    (hwritten : ∀ id x, .session id x ∈ ux.log → first.sessions.find? id = none →
      (∀ o, x.rotatedFrom = some o → ¬ dead o) ∧ (barred x.userId → n ≤ x.checked)) :
    Ended dead barred n first (system.view ux.log first) where
  follows := hknows.sessions.follows
  revoked id hdead := by
    obtain ⟨x, hx, hlast⟩ := hrevoked id hdead
    obtain ⟨r, hr, hmono⟩ := hknows.sessions.follows id x hx
    exact ⟨_, hr, hmono hlast⟩
  heirs id x hx hnew := (hwritten id x (written_of_view hnew hx) hnew).1
  checks id x hx hnew := (hwritten id x (written_of_view hnew hx) hnew).2

theorem not_rotating {db : Database} {id : SessionId} {ux : Tx Proc Write Lock}
    (h : rotating db id ux = false) :
    (∀ userId checked, .createSession userId (some id) checked ∉ ux.pc.todo) ∧
      ∀ new x, .session new x ∈ ux.log → db.sessions.find? new = none →
        x.rotatedFrom ≠ some id := by
  simp only [rotating, Bool.or_eq_false_iff, List.any_eq_false] at h
  refine ⟨fun userId checked hmem => ?_, fun new x hx hnone ho => ?_⟩
  · exact h.1 _ hmem (decide_eq_true rfl)
  · refine h.2 _ hx ?_
    simp [Write.rotates, hnone, ho]

theorem ended_of_logout (h : Reach IsInitial system.step Free s)
    (htx : s.txs.find? t = some tx) (hends : system.ends tx.pc = true)
    {principal : AccessPrincipal} (hlogout : tx.pc.request = .logout principal)
    (hothers : ∀ u ux, s.txs.find? u = some ux → u ≠ t →
      rotating s.db principal.sessionId ux = false)
    {s' : State Database Proc Write Lock}
    (hlater : Later system.step (fun s a => undisturbed s a = true) (system.commits s t tx) s') :
    Ended (fun id => id = principal.sessionId) (fun _ => False) (s.commits + 1)
      (system.view tx.log s.db) s'.db := by
  have hsessions := ((knows_of_reach h).knows t tx htx).sessions
  have hrevoked : ∀ id, id = principal.sessionId →
      ∃ x, (system.view tx.log s.db).sessions.find? id = some x ∧ x.revoked = true := by
    rintro id rfl
    obtain ⟨x, hx, hstage⟩ := hsessions.logout principal hlogout
    have hdone : tx.pc.todo = [] := List.isEmpty_iff.mp hends
    obtain hmore | ⟨-, hlast⟩ := hstage
    · cases hdone.symm.trans hmore
    · exact ⟨x, hx, hlast⟩
  refine ended_of_commit h htx hends hrevoked (fun u ux hu hne hknows => .inl ?_) hlater
  obtain ⟨hcreate, hlog⟩ := not_rotating (hothers u ux hu hne)
  refine ⟨ended_view hknows hrevoked fun id x hx hnew => ⟨fun o ho hdead => ?_, nofun⟩,
    fun userId o checked hmem hdead => ?_, fun _ _ _ _ => nofun, fun _ _ _ => nofun⟩
  · exact hlog id x hx ((hsessions.follows id).eq_none hnew) (hdead ▸ ho)
  · exact hcreate userId checked (hdead ▸ hmem)

/-- Whoever is still to sign in holds no edit, and looks at the account once more. -/
theorem stuck_of_signsIn {ux : Tx Proc Write Lock} {db : Database} {userId : UserId} {x : Stmt}
    (hknows : Knows db ux) (hdisabled : db.isActive userId = false) (hx : x ∈ ux.pc.todo)
    (hsigns : x.signsIn = some userId) : Stuck db ux userId where
  disabled := hdisabled
  signer principal u payload hrequest := by
    cases hknows.frames.edit principal u payload hrequest with
    | claiming todo | locking todo | finding todo | checking _ todo =>
      rw [todo] at hx
      simp only [List.mem_cons, List.not_mem_nil, or_false] at hx
      rcases hx with rfl | rfl | rfl | rfl <;> cases hsigns
    | writing current h =>
      have hedits := h.edits x hx
      cases x with
      | resolveSession | createSession => simp [Stmt.edits] at hedits
      | _ => cases hsigns
  closes := by
    cases x with
    | resolveSession u checked =>
      obtain rfl := Option.some.inj hsigns
      exact .inr ⟨checked, hx⟩
    | createSession u rotatedFrom checked =>
      obtain rfl := Option.some.inj hsigns
      exact .inl (hknows.sessions.closes.mem hx)
    | _ => cases hsigns
  held := .inl ⟨x, hx, hsigns⟩

/-- A finished edit that has written a status of disabled leaves the account disabled. -/
theorem disabled_of_log {db : Database} {userId : UserId} (hknows : Knows db tx)
    (hends : system.ends tx.pc = true) (hdisable : .user userId .disabled ∈ tx.log) :
    (system.view tx.log db).isActive userId = false := by
  obtain ⟨⟨principal, payload, hrequest⟩, -⟩ := hknows.sessions.status userId _ (.inr hdisable)
  have hdone : tx.pc.todo = [] := List.isEmpty_iff.mp hends
  obtain ⟨current, hwriting⟩ := (hknows.frames.edit principal userId payload hrequest).ended hdone
  have hahead := hwriting.ahead
  rw [hdone] at hahead
  have hstatus : (system.view tx.log db).users.find? userId = some .disabled := by
    rw [hwriting.status .disabled (.inr hdisable)]
    exact congrArg Standing.status hahead
  rw [Database.isActive, hstatus]
  rfl

/-- A disable that commits ends every session of the account. -/
theorem ended_of_disable (h : Reach IsInitial system.step Free s)
    (htx : s.txs.find? t = some tx) (hends : system.ends tx.pc = true) {userId : UserId}
    (hdisable : .user userId .disabled ∈ tx.log)
    {s' : State Database Proc Write Lock}
    (hlater : Later system.step (fun s a => undisturbed s a = true) (system.commits s t tx) s') :
    Ended (Owns (system.view tx.log s.db) userId) (fun u => u = userId) (s.commits + 1)
      (system.view tx.log s.db) s'.db := by
  have hsound := (knows_of_reach h).sound
  have hsessions := ((knows_of_reach h).knows t tx htx).sessions
  have hstatus := disabled_of_log ((knows_of_reach h).knows t tx htx) hends hdisable
  have hrevoked : ∀ id, Owns (system.view tx.log s.db) userId id →
      ∃ x, (system.view tx.log s.db).sessions.find? id = some x ∧ x.revoked = true := by
    rintro id ⟨x, hx, huser⟩
    obtain hmore | hall := (hsessions.status userId .disabled (.inr hdisable)).2 rfl
    · have hdone : tx.pc.todo = [] := List.isEmpty_iff.mp hends
      rw [hdone] at hmore
      cases hmore
    · exact ⟨x, hx, hall id x hx huser⟩
  refine ended_of_commit h htx hends hrevoked (fun u ux hu hne hknows => ?_) hlater
  by_cases hsigner : ∃ x ∈ ux.pc.todo, x.signsIn = some userId
  · obtain ⟨x, hx, hsigns⟩ := hsigner
    exact .inr ⟨userId, rfl, stuck_of_signsIn hknows hstatus hx hsigns⟩
  left
  have hquiet : ∀ x ∈ ux.pc.todo, x.signsIn ≠ some userId := fun x hx hsigns =>
    hsigner ⟨x, hx, hsigns⟩
  -- The edit has locked the account, so nobody else has created a session of it.
  have hlock : Lock.row (.user userId) ∈ tx.locks := hsound.covers t tx htx _ hdisable
  have hshared : Lock.shared userId ∉ ux.locks :=
    not_shared_of_locked (hsound.apart u ux t tx hu htx hne) hlock
  have hforeign : ∀ id x, .session id x ∈ ux.log →
      (system.view tx.log s.db).sessions.find? id = none → x.userId ≠ userId := by
    rintro id x hx hnew rfl
    exact hshared (hknows.sessions.created id x hx hnew).1
  have howner {o : SessionId} {u' : UserId} (howns : Owns (system.view tx.log s.db) userId o)
      (hview : Owns (system.view ux.log (system.view tx.log s.db)) u' o) : u' = userId := by
    obtain ⟨x, hx, rfl⟩ := hview
    obtain ⟨y, hy, huser⟩ := howns.follows (hknows.sessions.follows o)
    obtain rfl := Option.some.inj (hx.symm.trans hy)
    exact huser
  refine ⟨ended_view hknows hrevoked fun id x hx hnew => ⟨fun o ho hdead => ?_, ?_⟩,
    fun u' o checked hmem hdead => ?_, ?_, ?_⟩
  · have hview := (hknows.sessions.created id x hx hnew).2 o ho
    exact hforeign id x hx hnew (howner hdead hview)
  · exact fun hbarred => absurd hbarred (hforeign id x hx hnew)
  · obtain rfl := howner hdead (hknows.sessions.rotates u' o checked hmem)
    exact hquiet _ hmem rfl
  · rintro u' rotatedFrom checked hmem rfl
    exact absurd rfl (hquiet _ hmem)
  · rintro u' checked hmem rfl
    exact absurd rfl (hquiet _ hmem)

end

/-- In runs whose commits neither end a session that an open transaction rotates, nor enable an
account that one has checked before, the sessions ended by a logout or a disable stay dead, and so do
their heirs. -/
theorem ended_sessions_stay_dead {s s' s'' : State Database Proc Write Lock}
    (h : Reach IsInitial system.step (fun s a => undisturbed s a = true) s) {t : Nat}
    {tx : Tx Proc Write Lock} (htx : s.txs.find? t = some tx)
    (hquiet : undisturbed s (.commit t) = true) (hs : system.step s (.commit t) = some s')
    (hlater : Later system.step (fun s a => undisturbed s a = true) s' s'') :
    (∀ principal, tx.pc.request = .logout principal →
      StayDead (fun id => id = principal.sessionId) s'.db s''.db) ∧
    ∀ userId, .user userId .disabled ∈ tx.log →
      StayDead (Owns s'.db userId) s'.db s''.db ∧
        ∀ id x, s''.db.sessions.find? id = some x → x.userId = userId →
          x.checked < s'.commits → ¬ Accepted s''.db id := by
  obtain ⟨tx', htx', hs⟩ := Option.bind_eq_some_iff.mp hs
  obtain rfl := Option.some.inj (htx.symm.trans htx')
  obtain ⟨hends, hs⟩ := Option.ite_none_right_eq_some.mp hs
  obtain rfl := Option.some.inj hs
  refine ⟨fun principal hlogout => ?_, fun userId hdisable => ?_⟩
  · refine (ended_of_logout h.free htx hends hlogout (fun u ux hu hne => ?_) hlater).stayDead
    have hfalse := (Bool.or_eq_false_iff.mp (not_outlives htx hquiet hu (Ne.symm hne))).1
    rwa [hlogout] at hfalse
  · have hended := ended_of_disable h.free htx hends hdisable hlater
    refine ⟨hended.stayDead, fun id x hx huser hchecked => ?_⟩
    cases hfirst : (system.view tx.log s.db).sessions.find? id with
    | none =>
      have hlate := hended.checks id x hx hfirst huser
      exact absurd hchecked (Nat.not_lt.mpr hlate)
    | some y =>
      obtain ⟨r, hr, -⟩ := hended.follows id y hfirst
      obtain rfl := Option.some.inj (hr.symm.trans hx)
      exact hended.stayDead.sessions id ⟨y, hfirst, huser⟩

/-! ## A logout that does not last -/

def holder : AccessPrincipal := ⟨1, 10, [], "token"⟩

def logoutStatements : List (Action Proc Input) :=
  [.start 2 (.start (.logout holder)), .next 2 anyInput]

def logoutEnd : Tx Proc Write Lock where
  pc := ⟨.logout holder, none, .idle, []⟩
  locks := [.row (.session 10)]
  log := [.session 10 ⟨1, "token", 100, true, none, 0⟩]

/-- The session registers a creator profile, and logs out before the statements of that run. -/
def registration : List (Action Proc Input) :=
  .start 1 (.start (.upsertCreatorProfile holder ⟨"handle", "name"⟩ 0)) :: logoutStatements

theorem registering_runs : (exec system.step oneAccount registration).isSome = true := by
  decide +kernel

def registering : State Database Proc Write Lock :=
  (exec system.step oneAccount registration).get registering_runs

theorem registered_runs : (exec system.step (system.commits registering 2 logoutEnd)
    (List.replicate 11 (.next 1 anyInput) ++ [.commit 1])).isSome = true := by
  decide +kernel

def registered : State Database Proc Write Lock :=
  (exec system.step (system.commits registering 2 logoutEnd)
    (List.replicate 11 (.next 1 anyInput) ++ [.commit 1])).get registered_runs

theorem accepted_of_resolve {db : Database} {now : Nat} {token : String}
    {principal : AccessPrincipal} (h : db.resolve now token = some principal) :
    Accepted db principal.sessionId := ⟨now, token, principal, h, rfl⟩

/-- A registration under way gives the session that is logged out a successor. -/
theorem ended_session_has_heir :
    Reach IsInitial system.step Free registering ∧ registering.txs.find? 2 = some logoutEnd ∧
      system.step registering (.commit 2) = some (system.commits registering 2 logoutEnd) ∧
      Later system.step Free (system.commits registering 2 logoutEnd) registered ∧
      ¬ StayDead (fun id => id = holder.sessionId) (system.commits registering 2 logoutEnd).db
        registered.db := by
  have hreach : Reach IsInitial system.step Free registering :=
    reach_of_exec (rfl : IsInitial oneAccount) (Option.some_get registering_runs).symm
  have hlogout : registering.txs.find? 2 = some logoutEnd := by decide +kernel
  have hcommit := step_commit hlogout (rfl : system.ends logoutEnd.pc = true)
  have hlater : Later system.step Free (system.commits registering 2 logoutEnd) registered :=
    later_of_exec (Option.some_get registered_runs).symm
  refine ⟨hreach, hlogout, hcommit, hlater, fun hdead => ?_⟩
  have hheir : registered.db.sessions.find? 20 =
      some ⟨1, "new token", 100, false, some 10, 0⟩ := by decide +kernel
  have hnew : (system.commits registering 2 logoutEnd).db.sessions.find? 20 = none := by
    decide +kernel
  have hresolve : registered.db.resolve registered.db.now "new token" =
      some ⟨1, 20, [.creator], "new token"⟩ := by decide +kernel
  exact hdead.heirs 20 _ hheir hnew 10 rfl rfl (accepted_of_resolve hresolve)

theorem leaving_runs :
    (exec (guarded system.step undisturbed) oneAccount logoutStatements).isSome = true := by
  decide +kernel

/-- The session logs out, and its account signs in again. -/
def leaving : State Database Proc Write Lock :=
  (exec (guarded system.step undisturbed) oneAccount logoutStatements).get leaving_runs

def signingIn : List (Action Proc Input) :=
  .start 3 (.start (.login 1 (some "token") true 0)) :: List.replicate 4 (.next 3 anyInput) ++
    [.commit 3]

theorem signedIn_runs : (exec (guarded system.step undisturbed)
    (system.commits leaving 2 logoutEnd) signingIn).isSome = true := by
  decide +kernel

def signedIn : State Database Proc Write Lock :=
  (exec (guarded system.step undisturbed) (system.commits leaving 2 logoutEnd) signingIn).get
    signedIn_runs

/-- The old session stays dead when its owner signs in again. -/
theorem ended_sessions_stay_dead_signedIn :
    ¬ Accepted signedIn.db 10 ∧ Accepted signedIn.db 20 := by
  have hreach : Reach IsInitial system.step (fun s a => undisturbed s a = true) leaving :=
    reach_of_guarded_exec (rfl : IsInitial oneAccount) (Option.some_get leaving_runs).symm
  have hlogout : leaving.txs.find? 2 = some logoutEnd := by decide +kernel
  have hquiet : undisturbed leaving (.commit 2) = true := by decide +kernel
  have hcommit := step_commit hlogout (rfl : system.ends logoutEnd.pc = true)
  have hlater : Later system.step (fun s a => undisturbed s a = true)
      (system.commits leaving 2 logoutEnd) signedIn :=
    later_of_guarded_exec (Option.some_get signedIn_runs).symm
  have hdead := (ended_sessions_stay_dead hreach hlogout hquiet hcommit hlater).1 holder rfl
  have hresolve : signedIn.db.resolve 0 "new token" = some ⟨1, 20, [], "new token"⟩ := by
    decide +kernel
  exact ⟨hdead.sessions 10 rfl, accepted_of_resolve hresolve⟩

end FractalStudio.Accounts
