import FractalStudio.Accounts.EditFrame

/-!
# The rows of sessions

A session is created once, and all that happens to its row is that it is revoked. A session is
created under a lock of its account, for a principal who has been its predecessor, and before the
account is looked at once more. A logout leaves its session revoked, and an edit that disables an
account leaves all its sessions revoked.
-/
namespace FractalStudio.Accounts

open ReadCommitted Transition
open Admin (UserId UserStatus AdminRole)

/-- Nothing happens to a session but that it is revoked. -/
def Follows (old new : Option Session) : Prop :=
  ∀ s, old = some s → ∃ r, new = some { s with revoked := r } ∧ (s.revoked = true → r = true)

def AllRevoked (db : Database) (userId : UserId) : Prop :=
  ∀ id s, db.sessions.find? id = some s → s.userId = userId → s.revoked = true

section
variable {a b c : Option Session} {db db' : Database} {log : List Write} {id : SessionId}

theorem Follows.refl (a : Option Session) : Follows a a := fun s hs => ⟨s.revoked, hs, fun h => h⟩

theorem Follows.trans (h : Follows a b) (h' : Follows b c) : Follows a c := by
  intro s hs
  obtain ⟨r, hr, hrevoked⟩ := h s hs
  obtain ⟨r', hr', hrevoked'⟩ := h' _ hr
  exact ⟨r', hr', fun hs => hrevoked' (hrevoked hs)⟩

theorem Follows.eq_none (h : Follows a b) (hb : b = none) : a = none := by
  cases a with
  | none => rfl
  | some s =>
    obtain ⟨r, hr, -⟩ := h s rfl
    rw [hb] at hr
    cases hr

theorem session_of_mem_log (h : ∃ s, .session id s ∈ log) :
    ∃ s, .session id s ∈ log ∧ ∀ db, (system.view log db).sessions.find? id = some s := by
  obtain ⟨s, hs⟩ := h
  obtain ⟨w, hw, hkey, hvalue⟩ := row_of_mem_log (k := .session id) ⟨_, hs, rfl⟩
  cases w <;> cases hkey
  exact ⟨_, hw, fun db => Row.session.inj (hvalue db)⟩

theorem session_of_not_mem_log (db : Database) (h : ¬ ∃ s, .session id s ∈ log) :
    (system.view log db).sessions.find? id = db.sessions.find? id := by
  have hkeys : ∀ w ∈ log, w.key ≠ .session id := by
    intro w hw hkey
    cases w <;> cases hkey
    exact h ⟨_, hw⟩
  exact Row.session.inj (row_of_not_written db hkeys)

theorem session_view_cases (log : List Write) (id : SessionId) :
    (∀ db, (system.view log db).sessions.find? id = db.sessions.find? id) ∨
      ∃ s, .session id s ∈ log ∧ ∀ db, (system.view log db).sessions.find? id = some s := by
  by_cases h : ∃ s, .session id s ∈ log
  · exact .inr (session_of_mem_log h)
  · exact .inl fun db => session_of_not_mem_log db h

theorem written_of_view {s : Session} (hdb : db.sessions.find? id = none)
    (hview : (system.view log db).sessions.find? id = some s) : .session id s ∈ log := by
  obtain hsame | ⟨s', hs', hvalue⟩ := session_view_cases log id
  · rw [hsame, hdb] at hview
    cases hview
  · obtain rfl := Option.some.inj ((hvalue db).symm.trans hview)
    exact hs'

theorem Follows.view (h : Follows (db.sessions.find? id) (db'.sessions.find? id)) :
    Follows ((system.view log db).sessions.find? id) ((system.view log db').sessions.find? id) := by
  obtain hsame | ⟨s, -, hvalue⟩ := session_view_cases log id
  · rwa [hsame, hsame]
  · rw [hvalue, hvalue]
    exact .refl _

end

/-! ## Statements -/

section
variable {p : Proc} {rest : List Stmt} {commits : Nat} {db : Database} {input : Input}
  {e : Effect Proc Write Lock} {s : Stmt}

theorem effect_session {id : SessionId} {x : Session}
    (h : s.effect p rest commits db input = some e) (hw : .session id x ∈ e.writes) :
    (∃ old, db.sessions.find? id = some old ∧ x = { old with revoked := true }) ∨
      (db.sessions.find? id = none ∧ s = .createSession x.userId x.rotatedFrom x.checked ∧
        x.revoked = false ∧ Lock.shared x.userId ∈ e.holds ∧ e.writes = [.session id x]) := by
  cases s with
  | findUser userId =>
    obtain ⟨current, -, rfl⟩ := Option.map_eq_some_iff.mp h
    cases hw
  | revokeSessionsOf userId =>
    obtain rfl := Option.some.inj h
    obtain ⟨⟨id', old⟩, hold, hx⟩ := List.mem_map.mp hw
    obtain ⟨rfl, rfl⟩ := Write.session.inj hx
    exact .inl ⟨old, (Table.mem_select.mp hold).1, rfl⟩
  | revokeSession sessionId =>
    simp only [Stmt.effect] at h
    split at h
    · next old hold =>
      split at h
      · obtain rfl := Option.some.inj h
        cases hw
      · obtain rfl := Option.some.inj h
        obtain ⟨rfl, rfl⟩ := Write.session.inj (List.mem_singleton.mp hw)
        exact .inl ⟨old, hold, rfl⟩
    · obtain rfl := Option.some.inj h
      cases hw
  | createSession userId rotatedFrom checked =>
    obtain ⟨hnone, h⟩ := Option.ite_none_right_eq_some.mp h
    obtain rfl := Option.some.inj h
    obtain ⟨rfl, rfl⟩ := Write.session.inj (List.mem_singleton.mp hw)
    exact .inr ⟨Option.isNone_iff_eq_none.mp hnone, rfl, rfl, List.mem_singleton_self _, rfl⟩
  | _ => grind [Stmt.effect, reads, Proc.after, triggers]

theorem effect_follows (h : s.effect p rest commits db input = some e) (id : SessionId) :
    Follows (db.sessions.find? id) ((system.view e.writes db).sessions.find? id) := by
  obtain hsame | ⟨x, hx, hvalue⟩ := session_view_cases e.writes id
  · rw [hsame]
    exact .refl _
  · rw [hvalue]
    obtain ⟨old, hold, rfl⟩ | ⟨hnone, -⟩ := effect_session h hx
    · intro s hs
      obtain rfl := Option.some.inj (hold.symm.trans hs)
      exact ⟨true, rfl, fun _ => rfl⟩
    · intro s hs
      rw [hnone] at hs
      cases hs

theorem effect_revokeSession {sessionId : SessionId} {x : Session}
    (h : (Stmt.revokeSession sessionId).effect p rest commits db input = some e)
    (hx : db.sessions.find? sessionId = some x) :
    e.next.todo = rest ∧
      (system.view e.writes db).sessions.find? sessionId = some { x with revoked := true } := by
  simp only [Stmt.effect, hx] at h
  split at h
  · next hrevoked =>
    obtain rfl := Option.some.inj h
    refine ⟨rfl, hx.trans ?_⟩
    rw [← hrevoked]
  · obtain rfl := Option.some.inj h
    exact ⟨rfl, Table.find?_put_self _ _ _⟩

theorem effect_revokeSessionsOf {userId : UserId}
    (h : (Stmt.revokeSessionsOf userId).effect p rest commits db input = some e) :
    AllRevoked (system.view e.writes db) userId := by
  obtain rfl := Option.some.inj h
  intro id x hx huser
  by_cases hwritten : ∃ y, Write.session id y ∈ (db.sessions.select fun _ s =>
      s.userId = userId && !s.revoked).map fun y => .session y.1 { y.2 with revoked := true }
  · obtain ⟨y, hy, hvalue⟩ := session_of_mem_log hwritten
    obtain rfl := Option.some.inj (hx.symm.trans (hvalue db))
    obtain ⟨⟨id', old⟩, -, hwrite⟩ := List.mem_map.mp hy
    obtain ⟨-, rfl⟩ := Write.session.inj hwrite
    rfl
  · rw [session_of_not_mem_log db hwritten] at hx
    by_contra hrevoked
    refine hwritten ⟨_, List.mem_map.mpr ⟨(id, x), Table.mem_select.mpr ⟨hx, ?_⟩, rfl⟩⟩
    simpa [huser] using hrevoked

theorem AllRevoked.effect {userId : UserId} (hdb : AllRevoked db userId)
    (hcreate : ∀ rotatedFrom checked, s ≠ .createSession userId rotatedFrom checked)
    (h : s.effect p rest commits db input = some e) :
    AllRevoked (system.view e.writes db) userId := by
  intro id x hx huser
  obtain hsame | ⟨y, hy, hvalue⟩ := session_view_cases e.writes id
  · rw [hsame] at hx
    exact hdb id x hx huser
  · obtain rfl := Option.some.inj ((hvalue db).symm.trans hx)
    obtain ⟨old, -, rfl⟩ | ⟨-, hs, -⟩ := effect_session h hy
    · rfl
    · rw [huser] at hs
      exact absurd hs (hcreate _ _)

theorem effect_suffix (htodo : p.todo = s :: rest)
    (h : s.effect p rest commits db input = some e) : rest <:+ e.next.todo := by
  have htriggers : rest <:+ p.todo := htodo ▸ List.suffix_cons s rest
  cases s with
  | findUser userId =>
    obtain ⟨current, -, rfl⟩ := Option.map_eq_some_iff.mp h
    exact List.suffix_refl _
  | checkUpdate =>
    simp only [Stmt.effect] at h
    split at h
    · split at h
      · cases h
      · obtain rfl := Option.some.inj h
        exact List.suffix_append _ _
    · cases h
  | resolveSession userId checked =>
    simp only [Stmt.effect] at h
    split at h
    · obtain rfl := Option.some.inj h
      exact List.suffix_append _ _
    · cases h
  | findAccount userId =>
    obtain ⟨-, h⟩ := Option.ite_none_right_eq_some.mp h
    obtain rfl := Option.some.inj h
    exact List.suffix_cons _ _
  | _ => grind [Stmt.effect, reads, Proc.after, triggers, List.suffix_refl]

end

/-! ## What a transaction knows of sessions -/

def Owns (db : Database) (userId : UserId) (id : SessionId) : Prop :=
  ∃ x, db.sessions.find? id = some x ∧ x.userId = userId

/-- Every session to come is followed by another look at its account. -/
def Closed : List Stmt → Prop
  | [] => True
  | s :: rest => (∀ userId rotatedFrom checked, s = .createSession userId rotatedFrom checked →
      .requireActive userId ∈ rest) ∧ Closed rest

/-- What a transaction knows of the session rows. -/
structure KeepsSessions (db : Database) (tx : Tx Proc Write Lock) : Prop where
  follows : ∀ id, Follows (db.sessions.find? id) ((system.view tx.log db).sessions.find? id)
  created : ∀ id x, .session id x ∈ tx.log → db.sessions.find? id = none →
    Lock.shared x.userId ∈ tx.locks ∧
      ∀ o, x.rotatedFrom = some o → Owns (system.view tx.log db) x.userId o
  rotates : ∀ userId o checked, .createSession userId (some o) checked ∈ tx.pc.todo →
    Owns (system.view tx.log db) userId o
  logout : ∀ principal, tx.pc.request = .logout principal →
    ∃ x, (system.view tx.log db).sessions.find? principal.sessionId = some x ∧
      (tx.pc.todo = [.revokeSession principal.sessionId] ∨
        tx.pc.todo = [] ∧ x.revoked = true)
  status : ∀ userId status, .updateStatus userId status ∈ tx.pc.todo ∨
      .user userId status ∈ tx.log →
    (∃ principal payload, tx.pc.request = .updateUser principal userId payload) ∧
      (status = .disabled →
        .revokeSessionsOf userId ∈ tx.pc.todo ∨ AllRevoked (system.view tx.log db) userId)
  closes : Closed tx.pc.todo

section
variable {db db' : Database} {tx ux : Tx Proc Write Lock} {userId : UserId} {id : SessionId}

theorem Closed.mem {todo : List Stmt} (h : Closed todo) {rotatedFrom : Option SessionId}
    {checked : Nat} (hmem : .createSession userId rotatedFrom checked ∈ todo) :
    .requireActive userId ∈ todo := by
  induction todo with
  | nil => cases hmem
  | cons s rest ih =>
    obtain rfl | hmem := List.mem_cons.mp hmem
    · exact List.mem_cons_of_mem _ (h.1 _ _ _ rfl)
    · exact List.mem_cons_of_mem _ (ih h.2 hmem)

theorem Closed.append {todo rest : List Stmt} (h : Closed todo) (hrest : Closed rest) :
    Closed (todo ++ rest) := by
  induction todo with
  | nil => exact hrest
  | cons s todo ih =>
    exact ⟨fun u r c hs => List.mem_append_left _ (h.1 u r c hs), ih h.2⟩

/-- Without a session to come there is nothing to close. -/
theorem closed_of_not_creates {todo : List Stmt}
    (h : ∀ u r c, .createSession u r c ∉ todo) : Closed todo := by
  induction todo with
  | nil => trivial
  | cons s rest ih =>
    refine ⟨fun u r c hs => absurd (hs ▸ List.mem_cons_self) (h u r c), ih fun u r c hmem => ?_⟩
    exact h u r c (List.mem_cons_of_mem _ hmem)

theorem closed_sessionStatements (u : UserId) (checked : Nat) (bearer : Bool)
    (existing : Option AccessPrincipal) : Closed (sessionStatements u checked bearer existing) := by
  cases existing with
  | none => simp [sessionStatements, Closed]
  | some existing =>
    simp only [sessionStatements]
    split
    · simp [Closed]
    · split <;> simp [Closed]

theorem Owns.follows (h : Owns db userId id)
    (hfollows : Follows (db.sessions.find? id) (db'.sessions.find? id)) : Owns db' userId id := by
  obtain ⟨x, hx, huser⟩ := h
  obtain ⟨r, hr, -⟩ := hfollows x hx
  exact ⟨_, hr, huser⟩

theorem resolve_eq_some {now : Nat} {token : String} {x : AccessPrincipal}
    (h : db.resolve now token = some x) :
    ∃ s, db.sessions.find? x.sessionId = some s ∧ s.userId = x.userId ∧ s.revoked = false := by
  unfold Database.resolve at h
  split at h
  · next sessionId s hselect =>
    obtain rfl := Option.some.inj h
    have hmem : (sessionId, s) ∈ db.sessions.select fun _ s =>
        s.tokenHash = token && db.accepts now s := by
      rw [hselect]
      exact List.mem_singleton_self _
    obtain ⟨hs, haccepts⟩ := Table.mem_select.mp hmem
    refine ⟨s, hs, rfl, ?_⟩
    simp only [Database.accepts, Bool.and_eq_true, Bool.not_eq_true'] at haccepts
    exact haccepts.2.1.1
  · cases h

theorem create_mem_sessionStatements {u : UserId} {checked checked' : Nat} {bearer : Bool}
    {existing : Option AccessPrincipal} {rotatedFrom : Option SessionId}
    (h : .createSession userId rotatedFrom checked ∈ sessionStatements u checked' bearer existing) :
    userId = u ∧ checked = checked' ∧ ∀ o, rotatedFrom = some o →
      ∃ x, existing = some x ∧ x.userId = u ∧ o = x.sessionId := by
  cases existing with
  | none => grind [sessionStatements]
  | some existing => grind [sessionStatements]

theorem not_status_sessionStatements (u : UserId) (checked : Nat) (bearer : Bool)
    (existing : Option AccessPrincipal) (userId : UserId) (status : UserStatus) :
    .updateStatus userId status ∉ sessionStatements u checked bearer existing := by
  intro h
  obtain ⟨_, h⟩ | ⟨_, h⟩ | h := mem_sessionStatements h <;> cases h

theorem not_resolve_sessionStatements (u : UserId) (checked : Nat) (bearer : Bool)
    (existing : Option AccessPrincipal) (userId : UserId) (checked' : Nat) :
    .resolveSession userId checked' ∉ sessionStatements u checked bearer existing := by
  intro h
  obtain ⟨_, h⟩ | ⟨_, h⟩ | h := mem_sessionStatements h <;> cases h

theorem revokes_mem_updateStatements (userId : UserId) (member : Bool) (roles : List AdminRole)
    (grantedBy : UserId) :
    .revokeSessionsOf userId ∈ updateStatements userId .disabled member roles grantedBy := by
  simp [updateStatements]

section
variable {n : Nat} {input : Input} {e : Effect Proc Write Lock} {s : Stmt} {rest : List Stmt}

theorem KeepsSessions.next_created (h : KeepsSessions db tx) (htodo : tx.pc.todo = s :: rest)
    (he : s.effect tx.pc rest n (system.view tx.log db) input = some e) {x : Session}
    (hx : .session id x ∈ tx.log ++ e.writes) (hnone : db.sessions.find? id = none) :
    Lock.shared x.userId ∈ tx.locks ++ system.kept e ∧
      ∀ o, x.rotatedFrom = some o → Owns (system.view tx.log db) x.userId o := by
  obtain hx | hx := List.mem_append.mp hx
  · obtain ⟨hshared, howns⟩ := h.created id x hx hnone
    exact ⟨List.mem_append_left _ hshared, howns⟩
  · obtain ⟨old, hold, rfl⟩ | ⟨-, rfl, -, hshared, -⟩ := effect_session he hx
    · obtain ⟨hshared, howns⟩ := h.created id old (written_of_view hnone hold) hnone
      exact ⟨List.mem_append_left _ hshared, howns⟩
    · refine ⟨List.mem_append_right _ (List.mem_append_left _ hshared), fun o ho => ?_⟩
      refine h.rotates x.userId o x.checked ?_
      rw [htodo, ← ho]
      exact List.mem_cons_self

theorem KeepsSessions.next_rotates (h : KeepsSessions db tx) (htodo : tx.pc.todo = s :: rest)
    (he : s.effect tx.pc rest n (system.view tx.log db) input = some e) {o : SessionId}
    {checked : Nat} (hmem : .createSession userId (some o) checked ∈ e.next.todo) :
    Owns (system.view tx.log db) userId o := by
  obtain hbefore | ⟨-, _, _, _, _, _, _, -, -, hmem⟩ | ⟨_, -, heq⟩ |
    ⟨u, checked', bearer, existing, -, hresolve, hmem⟩ := effect_todo htodo he hmem
  · exact h.rotates userId o checked hbefore
  · cases edits_updateStatements _ _ _ _ _ hmem
  · cases heq
  · obtain ⟨rfl, -, hrotated⟩ := create_mem_sessionStatements hmem
    obtain ⟨x, hx, huser, rfl⟩ := hrotated o rfl
    obtain ⟨now, token, hx⟩ := hresolve x hx
    obtain ⟨y, hy, hyuser, -⟩ := resolve_eq_some hx
    exact ⟨y, hy, hyuser.trans huser⟩

theorem KeepsSessions.next_status (h : KeepsSessions db tx) (hframes : Frames db tx)
    (htodo : tx.pc.todo = s :: rest)
    (he : s.effect tx.pc rest n (system.view tx.log db) input = some e) {status : UserStatus}
    (hwrite : .updateStatus userId status ∈ e.next.todo ∨
      .user userId status ∈ tx.log ++ e.writes) :
    (∃ principal payload, e.next.request = .updateUser principal userId payload) ∧
      (status = .disabled → .revokeSessionsOf userId ∈ e.next.todo ∨
        AllRevoked (system.view (tx.log ++ e.writes) db) userId) := by
  have hrequest := effect_request he
  have hbefore : (s = .checkUpdate ∧
      (∃ principal payload, tx.pc.request = .updateUser principal userId payload) ∧
        (status = .disabled → .revokeSessionsOf userId ∈ e.next.todo)) ∨
      (.updateStatus userId status ∈ tx.pc.todo ∨ .user userId status ∈ tx.log) := by
    obtain hmem | hlog := hwrite
    · obtain hmem | ⟨rfl, principal, u, payload, status, member, roles, hedit, htodo', hmem⟩ |
        ⟨_, -, heq⟩ | ⟨u, checked, bearer, existing, -, -, hmem⟩ := effect_todo htodo he hmem
      · exact .inr (.inl hmem)
      · obtain ⟨rfl, rfl⟩ := mem_updateStatements_status hmem
        refine .inl ⟨rfl, ⟨principal, payload, hedit⟩, ?_⟩
        rintro rfl
        rw [htodo']
        exact List.mem_append_left _ (revokes_mem_updateStatements userId member roles _)
      · cases heq
      · exact absurd hmem (not_status_sessionStatements u checked bearer existing userId _)
    · obtain hlog | hwrite := List.mem_append.mp hlog
      · exact .inr (.inr hlog)
      · rw [htodo, effect_status he hwrite]
        exact .inr (.inl List.mem_cons_self)
  rw [hrequest]
  obtain ⟨-, hedit, hrevokes⟩ | hbefore := hbefore
  · exact ⟨hedit, fun hstatus => .inl (hrevokes hstatus)⟩
  · obtain ⟨⟨principal, payload, hedit⟩, hstage⟩ := h.status userId status hbefore
    refine ⟨⟨principal, payload, hedit⟩, fun hstatus => ?_⟩
    have hwrites : (∃ status, .updateStatus userId status ∈ tx.pc.todo) ∨ tx.log ≠ [] :=
      hbefore.imp (fun hmem => ⟨_, hmem⟩) List.ne_nil_of_mem
    obtain ⟨current, hwriting⟩ := (hframes.edit principal userId payload hedit).writing_of hwrites
    have hedits := hwriting.edits s (by rw [htodo]; exact List.mem_cons_self)
    have hcreate (r : Option SessionId) (c : Nat) : s ≠ .createSession userId r c := by
      rintro rfl
      cases hedits
    rw [view_append]
    obtain hmem | hall := hstage hstatus
    · obtain rfl | hmem := List.mem_cons.mp (htodo ▸ hmem)
      · exact .inr (effect_revokeSessionsOf he)
      · exact .inl ((effect_suffix htodo he).subset hmem)
    · exact .inr (hall.effect hcreate he)

/-- A session that a statement creates is looked at again before the end. -/
theorem Closed.next (h : Closed tx.pc.todo) (htodo : tx.pc.todo = s :: rest)
    (he : s.effect tx.pc rest n (system.view tx.log db) input = some e) : Closed e.next.todo := by
  obtain ⟨new, hnew⟩ := effect_suffix htodo he
  have hrest : Closed rest := by
    rw [htodo] at h
    exact h.2
  cases s with
  | resolveSession userId checked =>
    simp only [Stmt.effect] at he
    split at he
    · obtain rfl := Option.some.inj he
      exact (closed_sessionStatements _ _ _ _).append hrest
    · cases he
  | checkUpdate =>
    simp only [Stmt.effect] at he
    split at he
    · split at he
      · cases he
      · obtain rfl := Option.some.inj he
        refine (closed_of_not_creates fun u r c hmem => ?_).append hrest
        cases edits_updateStatements _ _ _ _ _ hmem
    · cases he
  | findAccount userId =>
    obtain ⟨-, he⟩ := Option.ite_none_right_eq_some.mp he
    obtain rfl := Option.some.inj he
    exact ⟨fun _ _ _ hcreate => (by cases hcreate), hrest⟩
  | findUser userId =>
    obtain ⟨current, -, rfl⟩ := Option.map_eq_some_iff.mp he
    exact hrest
  | _ => grind [Stmt.effect, reads, Proc.after, triggers]

end

/-- What a transaction knows of the sessions survives its own statements. -/
theorem KeepsSessions.next (h : KeepsSessions db tx) (hframes : Frames db tx) {n : Nat}
    {input : Input} {e : Effect Proc Write Lock}
    (he : statement tx.pc n (system.view tx.log db) input = some e) :
    KeepsSessions db ⟨e.next, tx.locks ++ system.kept e, tx.log ++ e.writes⟩ := by
  unfold statement at he
  split at he
  · cases he
  next s rest htodo =>
  have hfollows (id : SessionId) : Follows ((system.view tx.log db).sessions.find? id)
      ((system.view (tx.log ++ e.writes) db).sessions.find? id) := by
    rw [view_append]
    exact effect_follows he id
  refine ⟨fun id => (h.follows id).trans (hfollows id), fun id x hx hnone => ?_,
    fun userId o checked hmem => ?_, fun principal hrequest => ?_,
    fun userId status hwrite => h.next_status hframes htodo he hwrite, h.closes.next htodo he⟩
  · obtain ⟨hshared, howns⟩ := h.next_created htodo he hx hnone
    exact ⟨hshared, fun o ho => (howns o ho).follows (hfollows o)⟩
  · exact (h.next_rotates htodo he hmem).follows (hfollows o)
  · obtain ⟨x, hx, hstage⟩ := h.logout principal ((effect_request he).symm.trans hrequest)
    obtain hstage | ⟨hnil, -⟩ := hstage
    · obtain ⟨rfl, rfl⟩ := List.cons.inj (htodo.symm.trans hstage)
      obtain ⟨hdone, hrevoked⟩ := effect_revokeSession he hx
      rw [view_append]
      exact ⟨_, hrevoked, .inr ⟨hdone, rfl⟩⟩
    · cases hnil.symm.trans htodo

theorem keepsSessions_start {request : Request} {n : Nat}
    (hadmitted : request.admitted n db = true) : KeepsSessions db ⟨.start request, [], []⟩ where
  follows id := .refl _
  created id x hx := absurd hx List.not_mem_nil
  rotates userId o checked hmem := by
    cases request with
    | upsertCreatorProfile principal profile checked' =>
      simp only [Proc.start, Request.statements, List.mem_cons, reduceCtorEq, false_or,
        Stmt.createSession.injEq, Option.some.injEq, List.not_mem_nil, or_false] at hmem
      obtain ⟨rfl, rfl, -⟩ := hmem
      simp only [Request.admitted, Bool.and_eq_true] at hadmitted
      obtain ⟨x, hx, huser, -⟩ := resolve_eq_some (of_decide_eq_true hadmitted.1.1)
      exact ⟨x, hx, huser⟩
    | _ => simp [Proc.start, Request.statements] at hmem
  logout principal hrequest := by
    obtain rfl : request = .logout principal := hrequest
    obtain ⟨x, hx, -⟩ := resolve_eq_some (of_decide_eq_true hadmitted)
    exact ⟨x, hx, .inl rfl⟩
  status userId status hwrite := by
    obtain hmem | hlog := hwrite
    · cases request <;> simp [Proc.start, Request.statements] at hmem
    · cases hlog
  closes := by cases request <;> simp [Proc.start, Request.statements, Closed]

theorem session_of_locked (hwritten : ∃ s, .session id s ∈ ux.log) (hcovers : system.Covers tx)
    (hcovered : system.Covers ux) (hapart : system.apart tx.locks ux.locks = true)
    (db : Database) : (system.view tx.log db).sessions.find? id = db.sessions.find? id := by
  obtain ⟨s, hs⟩ := hwritten
  have hconflict : system.conflicts (system.writeLock (.session id)) (Lock.row (.session id)) =
      true := by
    show Lock.conflicts (.row (.session id)) (.row (.session id)) = true
    simp [Lock.conflicts, Lock.row]
  have hrow : system.store.row (system.view tx.log db) (.session id) =
      system.store.row db (.session id) := row_of_apart hcovers hapart (hcovered _ hs) hconflict db
  exact Row.session.inj hrow

theorem not_shared_of_locked (hapart : system.apart tx.locks ux.locks = true)
    (hlock : Lock.row (.user userId) ∈ ux.locks) : Lock.shared userId ∉ tx.locks := by
  intro hshared
  have hconflict : Lock.conflicts (.shared userId) (.row (.user userId)) = false :=
    apart_iff.mp hapart _ hshared _ hlock
  simp [Lock.conflicts, Lock.shared, Lock.row] at hconflict

theorem KeepsSessions.allRevoked_other (h : KeepsSessions db tx)
    (hall : AllRevoked (system.view ux.log db) userId) (hshared : Lock.shared userId ∉ tx.locks) :
    AllRevoked (system.view ux.log (system.view tx.log db)) userId := by
  intro id x hx huser
  by_cases hwritten : ∃ s, .session id s ∈ ux.log
  · obtain ⟨s, -, hvalue⟩ := session_of_mem_log hwritten
    rw [hvalue, ← hvalue db] at hx
    exact hall id x hx huser
  · rw [session_of_not_mem_log _ hwritten] at hx
    cases hdb : db.sessions.find? id with
    | none =>
      have hcreated := (h.created id x (written_of_view hdb hx) hdb).1
      exact absurd (huser ▸ hcreated) hshared
    | some old =>
      obtain ⟨r, hr, hrevoked⟩ := h.follows id old hdb
      obtain rfl := Option.some.inj (hr.symm.trans hx)
      exact hrevoked (hall id old ((session_of_not_mem_log _ hwritten).trans hdb) huser)

theorem KeepsSessions.other (h : KeepsSessions db tx) (hu : KeepsSessions db ux)
    (hframes : Frames db ux) (hcovers : system.Covers tx) (hcovered : system.Covers ux)
    (hapart : system.apart tx.locks ux.locks = true) :
    KeepsSessions (system.view tx.log db) ux := by
  have hfollows (id : SessionId) : Follows ((system.view ux.log db).sessions.find? id)
      ((system.view ux.log (system.view tx.log db)).sessions.find? id) := (h.follows id).view
  refine ⟨fun id => ?_, fun id x hx hnone => ?_, fun userId o checked hmem => ?_,
    fun principal hrequest => ?_, fun userId status hwrite => ?_, hu.closes⟩
  · by_cases hwritten : ∃ s, .session id s ∈ ux.log
    · have hsame := session_of_locked hwritten hcovers hcovered hapart db
      obtain ⟨s, -, hvalue⟩ := session_of_mem_log hwritten
      rw [hsame, hvalue, ← hvalue db]
      exact hu.follows id
    · rw [session_of_not_mem_log _ hwritten]
      exact .refl _
  · obtain ⟨hshared, howns⟩ := hu.created id x hx ((h.follows id).eq_none hnone)
    exact ⟨hshared, fun o ho => (howns o ho).follows (hfollows o)⟩
  · exact (hu.rotates userId o checked hmem).follows (hfollows o)
  · obtain ⟨x, hx, hstage⟩ := hu.logout principal hrequest
    obtain ⟨r, hr, hrevoked⟩ := hfollows principal.sessionId x hx
    exact ⟨_, hr, hstage.imp_right fun hdone => ⟨hdone.1, hrevoked hdone.2⟩⟩
  · obtain ⟨⟨principal, payload, hedit⟩, hstage⟩ := hu.status userId status hwrite
    refine ⟨⟨principal, payload, hedit⟩, fun hstatus => (hstage hstatus).imp_right fun hall => ?_⟩
    have hwrites : (∃ status, .updateStatus userId status ∈ ux.pc.todo) ∨ ux.log ≠ [] :=
      hwrite.imp (fun hmem => ⟨_, hmem⟩) List.ne_nil_of_mem
    obtain ⟨current, hwriting⟩ := (hframes.edit principal userId payload hedit).writing_of hwrites
    exact h.allRevoked_other hall (not_shared_of_locked hapart hwriting.locked)

theorem view_sessions_congr (log : List Write) (h : db'.sessions = db.sessions) (id : SessionId) :
    (system.view log db').sessions.find? id = (system.view log db).sessions.find? id := by
  obtain hsame | ⟨s, -, hvalue⟩ := session_view_cases log id
  · rw [hsame, hsame, h]
  · rw [hvalue, hvalue]

theorem KeepsSessions.congr (h : KeepsSessions db tx) (hsame : db'.sessions = db.sessions) :
    KeepsSessions db' tx where
  follows id := by
    rw [view_sessions_congr tx.log hsame, hsame]
    exact h.follows id
  created id x hx hnone := by
    rw [hsame] at hnone
    obtain ⟨hshared, howns⟩ := h.created id x hx hnone
    refine ⟨hshared, fun o ho => ?_⟩
    obtain ⟨y, hy, huser⟩ := howns o ho
    exact ⟨y, (view_sessions_congr tx.log hsame o).trans hy, huser⟩
  rotates userId o checked hmem := by
    obtain ⟨y, hy, huser⟩ := h.rotates userId o checked hmem
    exact ⟨y, (view_sessions_congr tx.log hsame o).trans hy, huser⟩
  logout principal hrequest := by
    obtain ⟨x, hx, hstage⟩ := h.logout principal hrequest
    exact ⟨x, (view_sessions_congr tx.log hsame _).trans hx, hstage⟩
  closes := h.closes
  status userId status hwrite := by
    refine (h.status userId status hwrite).imp_right fun hstage hstatus =>
      (hstage hstatus).imp_right fun hall => ?_
    intro id x hx
    rw [view_sessions_congr tx.log hsame] at hx
    exact hall id x hx

end

structure Knows (db : Database) (tx : Tx Proc Write Lock) : Prop where
  frames : Frames db tx
  sessions : KeepsSessions db tx

/-- No commit takes from the others what they know of the sessions. -/
theorem knows_outline : Outline system Free (fun _ _ => True) fun _ db tx => Knows db tx where
  start n db pc hdb hstarts := by
    refine ⟨frame_outline.start n db pc hdb hstarts, ?_⟩
    obtain ⟨hstart, hadmitted⟩ := Bool.and_eq_true_iff.mp hstarts
    rw [of_decide_eq_true hstart]
    exact keepsSessions_start hadmitted
  next n db tx input e hdb h hcovers he :=
    ⟨frame_outline.next n db tx input e hdb h.frames hcovers he, h.sessions.next h.frames he⟩
  commit _ _ _ _ _ _ _ _ := trivial
  other s t tx u ux _ _ _ _ _ hapart hcovers hcovered _ h hu :=
    ⟨h.frames.other hu.frames hcovers hapart,
      h.sessions.other hu.sessions hu.frames hcovers hcovered hapart⟩
  elapse _ _ _ := trivial
  elapses n db tx h := ⟨frame_outline.elapses n db tx h.frames, h.sessions.congr rfl⟩

theorem knows_of_reach {s : State Database Proc Write Lock}
    (h : Reach IsInitial system.step Free s) :
    Outlined system (fun _ _ => True) (fun _ db tx => Knows db tx) s :=
  knows_outline.invariant (fun _ hs => outlined_start hs trivial) h

end FractalStudio.Accounts
