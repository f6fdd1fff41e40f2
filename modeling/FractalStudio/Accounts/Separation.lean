import FractalStudio.Accounts.Requests

/-!
# Administrators and creators

No account is both. Every statement that gives an account a role or a profile checks the other side
under the advisory lock of the account, and statements that take roles away do no harm without it.
-/
namespace FractalStudio.Accounts

open ReadCommitted Transition
open Admin (UserId UserRole)

theorem row_of_not_written {log : List Write} (db : Database) {k : Key}
    (h : ∀ w ∈ log, w.key ≠ k) : (system.view log db).row k = db.row k := by
  have hrow : system.store.row (system.view log db) k = system.store.row db k := row_view_of_ne h
  exact hrow

theorem row_of_mem_log {log : List Write} {k : Key} (h : ∃ w ∈ log, w.key = k) :
    ∃ w ∈ log, w.key = k ∧ ∀ db, (system.view log db).row k = w.value := by
  have hwritten : ∃ w ∈ log, system.store.key w = k ∧
      ∀ db, system.store.row (system.view log db) k = system.store.value w := row_of_written h
  exact hwritten

theorem row_written_cases (log : List Write) (k : Key) :
    (∀ db, (system.view log db).row k = db.row k) ∨
      ∃ w ∈ log, w.key = k ∧ ∀ db, (system.view log db).row k = w.value := by
  have hcases : (∀ db, system.store.row (system.view log db) k = system.store.row db k) ∨
      ∃ w ∈ log, system.store.key w = k ∧
        ∀ db, system.store.row (system.view log db) k = system.store.value w := row_view_cases log k
  exact hcases

def Both (db : Database) (userId : UserId) : Prop :=
  db.hasRole userId (.privileged .admin) = true ∧
    (db.hasRole userId .creator = true ∨ (db.creatorProfiles.find? userId).isSome = true)

/-- The account that the trigger of a statement is about. -/
def Stmt.guards : Stmt → Option UserId
  | .insertRole userId _ => some userId
  | .upsertProfile userId _ => some userId
  | _ => none

/-- The account that a write gives something. -/
def Write.grants : Write → Option UserId
  | .role userId _ true => some userId
  | .profile userId _ => some userId
  | _ => none

/-- A trigger has found nothing against its statement. -/
def Stmt.Allowed (db : Database) : Stmt → Prop
  | .insertRole userId role => roleRaises db userId role = false
  | .upsertProfile userId _ => profileRaises db userId = false
  | _ => True

/-! ## Taking away -/

/-- An account has no role and no profile in one database that it does not have in the other. -/
structure Fewer (db' db : Database) (userId : UserId) : Prop where
  role : ∀ role, db'.hasRole userId role = true → db.hasRole userId role = true
  profile : (db'.creatorProfiles.find? userId).isSome = true →
    (db.creatorProfiles.find? userId).isSome = true

section
variable {db db' : Database} {userId : UserId} {log : List Write}

theorem Fewer.not_both (h : Fewer db' db userId) (hdb : ¬ Both db userId) : ¬ Both db' userId :=
  fun hboth => hdb ⟨h.role _ hboth.1, hboth.2.imp (h.role _) h.profile⟩

theorem Fewer.notRaises (h : Fewer db' db userId) {role : UserRole}
    (hdb : roleRaises db userId role = false) : roleRaises db' userId role = false := by
  have hno {r : UserRole} (hr : db.hasRole userId r = false) : db'.hasRole userId r = false :=
    Bool.eq_false_iff.mpr fun htrue => absurd (h.role r htrue) (by rw [hr]; exact Bool.false_ne_true)
  match role with
  | .privileged .admin =>
    rw [roleRaises, Bool.or_eq_false_iff] at hdb ⊢
    refine ⟨hno hdb.1, Bool.eq_false_iff.mpr fun htrue => ?_⟩
    have hprofile := h.profile htrue
    rw [hdb.2] at hprofile
    cases hprofile
  | .creator => exact hno hdb
  | .privileged .financeOperator => rfl

theorem Stmt.Allowed.mono {s : Stmt} (h : ∀ userId, s.guards = some userId → Fewer db' db userId)
    (hdb : s.Allowed db) : s.Allowed db' := by
  cases s with
  | insertRole userId role => exact (h userId rfl).notRaises hdb
  | upsertProfile userId profile =>
    exact (h userId rfl).notRaises (show roleRaises db userId .creator = false from hdb)
  | _ => trivial

theorem hasRole_view_cases (log : List Write) (userId : UserId) (role : UserRole) :
    (∀ db, (system.view log db).hasRole userId role = db.hasRole userId role) ∨
      ∃ granted, .role userId role granted ∈ log ∧
        ∀ db, (system.view log db).hasRole userId role = granted := by
  obtain hsame | ⟨w, hw, hkey, hvalue⟩ := row_written_cases log (.role userId role)
  · exact .inl fun db => Row.role.inj (hsame db)
  · cases w <;> cases hkey
    exact .inr ⟨_, hw, fun db => Row.role.inj (hvalue db)⟩

theorem profile_view_cases (log : List Write) (userId : UserId) :
    (∀ db, (system.view log db).creatorProfiles.find? userId = db.creatorProfiles.find? userId) ∨
      ∃ profile, .profile userId profile ∈ log ∧
        ∀ db, (system.view log db).creatorProfiles.find? userId = some profile := by
  obtain hsame | ⟨w, hw, hkey, hvalue⟩ := row_written_cases log (.profile userId)
  · exact .inl fun db => Row.profile.inj (hsame db)
  · cases w <;> cases hkey
    exact .inr ⟨_, hw, fun db => Row.profile.inj (hvalue db)⟩

theorem fewer_view (h : ∀ w ∈ log, w.grants ≠ some userId) :
    Fewer (system.view log db) db userId where
  role role hrole := by
    obtain hsame | ⟨granted, hw, hvalue⟩ := hasRole_view_cases log userId role
    · rwa [hsame] at hrole
    · rw [hvalue] at hrole
      rw [hrole] at hw
      exact absurd rfl (h _ hw)
  profile hprofile := by
    obtain hsame | ⟨profile, hw, -⟩ := profile_view_cases log userId
    · rwa [hsame] at hprofile
    · exact absurd rfl (h _ hw)

theorem Fewer.view (h : Fewer db' db userId) (log : List Write) :
    Fewer (system.view log db') (system.view log db) userId where
  role role hrole := by
    obtain hsame | ⟨granted, -, hvalue⟩ := hasRole_view_cases log userId role
    · rw [hsame] at hrole ⊢
      exact h.role role hrole
    · rwa [hvalue] at hrole ⊢
  profile hprofile := by
    obtain hsame | ⟨profile, -, hvalue⟩ := profile_view_cases log userId
    · rw [hsame] at hprofile ⊢
      exact h.profile hprofile
    · rw [hvalue]
      rfl

end

theorem hasRole_grant (db : Database) (userId : UserId) (role role' : UserRole) :
    ((Write.role userId role true).run db).hasRole userId role' =
      if role' = role then true else db.hasRole userId role' := by
  split
  · next hsame =>
    rw [hsame]
    exact Row.role.inj (row_run_self (.role userId role true) db)
  · next hne =>
    have hkey : Key.role userId role' ≠ (Write.role userId role true).key :=
      fun heq => hne (Key.role.inj heq).2
    exact Row.role.inj (row_run_ne hkey db)

theorem not_both_grant {db : Database} {userId : UserId} {role : UserRole} (hdb : ¬ Both db userId)
    (hallowed : roleRaises db userId role = false) :
    ¬ Both ((Write.role userId role true).run db) userId := by
  rintro ⟨hadmin, hcreator⟩
  rw [hasRole_grant] at hadmin hcreator
  match role with
  | .privileged .admin =>
    rw [roleRaises, Bool.or_eq_false_iff] at hallowed
    obtain hcreator | hprofile := hcreator
    · rw [if_neg (by decide), hallowed.1] at hcreator
      cases hcreator
    · rw [show ((Write.role userId (.privileged .admin) true).run db).creatorProfiles =
        db.creatorProfiles from rfl, hallowed.2] at hprofile
      cases hprofile
  | .creator =>
    rw [if_neg (by decide), show db.hasRole userId (.privileged .admin) = false from hallowed]
      at hadmin
    cases hadmin
  | .privileged .financeOperator =>
    rw [if_neg (by decide)] at hadmin hcreator
    exact hdb ⟨hadmin, hcreator⟩

theorem not_both_profile {db : Database} {userId : UserId} {profile : CreatorProfile}
    (hallowed : profileRaises db userId = false) :
    ¬ Both ((Write.profile userId profile).run db) userId := by
  rintro ⟨hadmin, -⟩
  rw [show ((Write.profile userId profile).run db).hasRole userId (.privileged .admin) =
    db.hasRole userId (.privileged .admin) from rfl,
    show db.hasRole userId (.privileged .admin) = false from hallowed] at hadmin
  cases hadmin

section
variable {p : Proc} {rest : List Stmt} {commits : Nat} {db : Database} {input : Input}
  {e : Effect Proc Write Lock}

theorem effect_plain {s : Stmt} (hplain : s.guards = none)
    (h : s.effect p rest commits db input = some e) :
    e.next.phase = .idle ∧ ∀ w ∈ e.writes, w.grants = none := by
  cases s with
  | insertRole userId role => cases hplain
  | upsertProfile userId profile => cases hplain
  | findUser userId =>
    obtain ⟨current, -, rfl⟩ := Option.map_eq_some_iff.mp h
    exact ⟨rfl, fun w hw => absurd hw List.not_mem_nil⟩
  | _ => grind [Stmt.effect, reads, Proc.after, Write.grants]

theorem effect_guarded {s : Stmt} {userId : UserId} (hguards : s.guards = some userId)
    (h : s.effect p rest commits db input = some e) :
    (p.phase = .idle ∧ e = triggers p [.identity userId] .locked) ∨
      (p.phase = .locked ∧ s.Allowed db ∧ e = triggers p [] .checked) ∨
      (p.phase = .checked ∧ e.next.phase = .idle ∧ (e.writes = [] ∨
        ∃ w, e.writes = [w] ∧ w.grants = some userId ∧
          (¬ Both db userId → s.Allowed db → ¬ Both (w.run db) userId))) := by
  cases s with
  | insertRole userId' role =>
    obtain rfl := Option.some.inj hguards
    cases hphase : p.phase with
    | idle =>
      simp only [Stmt.effect, hphase, Option.some.injEq] at h
      exact .inl ⟨rfl, h.symm⟩
    | locked =>
      simp only [Stmt.effect, hphase] at h
      split at h
      · cases h
      · next hallowed =>
        exact .inr (.inl ⟨rfl, Bool.eq_false_iff.mpr hallowed, (Option.some.inj h).symm⟩)
    | checked =>
      simp only [Stmt.effect, hphase] at h
      split at h
      · obtain rfl := Option.some.inj h
        exact .inr (.inr ⟨rfl, rfl, .inl rfl⟩)
      · obtain rfl := Option.some.inj h
        exact .inr (.inr ⟨rfl, rfl, .inr ⟨_, rfl, rfl, not_both_grant⟩⟩)
  | upsertProfile userId' profile =>
    obtain rfl := Option.some.inj hguards
    cases hphase : p.phase with
    | idle =>
      simp only [Stmt.effect, hphase, Option.some.injEq] at h
      exact .inl ⟨rfl, h.symm⟩
    | locked =>
      simp only [Stmt.effect, hphase] at h
      split at h
      · cases h
      · next hallowed =>
        exact .inr (.inl ⟨rfl, Bool.eq_false_iff.mpr hallowed, (Option.some.inj h).symm⟩)
    | checked =>
      simp only [Stmt.effect, hphase] at h
      obtain rfl := Option.some.inj h
      exact .inr (.inr ⟨rfl, rfl, .inr ⟨_, rfl, rfl, fun _ => not_both_profile⟩⟩)
  | _ => cases hguards

end

/-! ## What a transaction knows -/

/-- What a transaction knows of the two roles. -/
structure Separates (db : Database) (tx : Tx Proc Write Lock) : Prop where
  /-- What it has given an account it has given under the lock of the account. -/
  locked : ∀ w ∈ tx.log, ∀ userId, w.grants = some userId → Lock.identity userId ∈ tx.locks
  trigger : tx.pc.phase ≠ .idle → ∀ s ∈ tx.pc.todo.head?, ∀ userId, s.guards = some userId →
    Lock.identity userId ∈ tx.locks
  /-- What a trigger has found out still holds. -/
  checked : tx.pc.phase = .checked → ∀ s ∈ tx.pc.todo.head?, s.Allowed (system.view tx.log db)
  apart : ∀ userId, ¬ Both (system.view tx.log db) userId

section
variable {db db' : Database} {tx ux : Tx Proc Write Lock} {userId : UserId}

theorem Separates.no_grants (h : Separates db tx) (hapart : system.apart tx.locks ux.locks = true)
    (hlock : Lock.identity userId ∈ ux.locks) : ∀ w ∈ tx.log, w.grants ≠ some userId := by
  intro w hw hgrants
  have hfree := apart_iff.mp hapart _ (h.locked w hw userId hgrants) _ hlock
  have hconflict : (Lock.identity userId).conflicts (Lock.identity userId) = true := by
    simp [Lock.conflicts, Lock.identity]
  exact absurd hfree (by rw [show system.conflicts = Lock.conflicts from rfl, hconflict]; decide)

theorem Separates.other (h : Separates db tx) (hu : Separates db ux)
    (hapart : system.apart tx.locks ux.locks = true) :
    Separates (system.view tx.log db) ux where
  locked := hu.locked
  trigger := hu.trigger
  checked hphase s hs := by
    refine Stmt.Allowed.mono ?_ (hu.checked hphase s hs)
    intro userId hguards
    have hlock := hu.trigger (by rw [hphase]; decide) s hs userId hguards
    exact (fewer_view (h.no_grants hapart hlock)).view ux.log
  apart userId := by
    by_cases hlock : Lock.identity userId ∈ ux.locks
    · exact ((fewer_view (h.no_grants hapart hlock)).view ux.log).not_both (hu.apart userId)
    · have hnothing : ∀ w ∈ ux.log, w.grants ≠ some userId :=
        fun w hw hgrants => hlock (hu.locked w hw userId hgrants)
      exact (fewer_view hnothing).not_both (h.apart userId)

theorem Separates.plain (h : Separates db tx) {e : Effect Proc Write Lock}
    (hphase : e.next.phase = .idle) (hnothing : ∀ w ∈ e.writes, w.grants = none) :
    Separates db ⟨e.next, tx.locks ++ system.kept e, tx.log ++ e.writes⟩ where
  locked w hw userId hgrants := by
    obtain hw | hw := List.mem_append.mp hw
    · exact List.mem_append_left _ (h.locked w hw userId hgrants)
    · rw [hnothing w hw] at hgrants
      cases hgrants
  trigger hnot := absurd hphase hnot
  checked hchecked := by
    rw [show e.next.phase = .checked from hchecked] at hphase
    cases hphase
  apart userId := by
    rw [view_append]
    refine Fewer.not_both (fewer_view fun w hw => ?_) (h.apart userId)
    rw [hnothing w hw]
    exact Option.some_ne_none userId |>.symm

theorem Separates.triggers (h : Separates db tx) {s : Stmt} {rest : List Stmt}
    (htodo : tx.pc.todo = s :: rest) {holds : List Lock} {phase : Phase}
    (hlock : ∀ userId, s.guards = some userId → Lock.identity userId ∈ tx.locks ++ holds)
    (hallowed : phase = .checked → s.Allowed (system.view tx.log db)) :
    Separates db ⟨{ tx.pc with phase := phase },
      tx.locks ++ system.kept (Accounts.triggers tx.pc holds phase),
      tx.log ++ (Accounts.triggers tx.pc holds phase).writes⟩ where
  locked w hw userId hgrants := by
    obtain hw | hw := List.mem_append.mp hw
    · exact List.mem_append_left _ (h.locked w hw userId hgrants)
    · exact absurd hw List.not_mem_nil
  trigger _ s' hs' userId hguards := by
    obtain rfl : s = s' := Option.some.inj (by rw [← hs', htodo]; rfl)
    have hheld := hlock userId hguards
    rwa [show system.kept (Accounts.triggers tx.pc holds phase) = holds from List.append_nil _]
  checked hphase s' hs' := by
    obtain rfl : s = s' := Option.some.inj (by rw [← hs', htodo]; rfl)
    rw [view_append]
    exact hallowed hphase
  apart userId := by
    rw [view_append]
    exact h.apart userId

theorem Separates.gives (h : Separates db tx) {w : Write} (hgrants : w.grants = some userId)
    (hlock : Lock.identity userId ∈ tx.locks)
    (hboth : ¬ Both (w.run (system.view tx.log db)) userId) {e : Effect Proc Write Lock}
    (hphase : e.next.phase = .idle) (hwrites : e.writes = [w]) :
    Separates db ⟨e.next, tx.locks ++ system.kept e, tx.log ++ e.writes⟩ where
  locked w' hw' userId' hgrants' := by
    obtain hw' | hw' := List.mem_append.mp hw'
    · exact List.mem_append_left _ (h.locked w' hw' userId' hgrants')
    · rw [hwrites] at hw'
      obtain rfl := List.mem_singleton.mp hw'
      obtain rfl := Option.some.inj (hgrants.symm.trans hgrants')
      exact List.mem_append_left _ hlock
  trigger hnot := absurd hphase hnot
  checked hchecked := by
    rw [show e.next.phase = .checked from hchecked] at hphase
    cases hphase
  apart userId' := by
    rw [view_append, hwrites]
    by_cases hsame : userId' = userId
    · rw [hsame]
      exact hboth
    · refine Fewer.not_both (fewer_view fun w' hw' => ?_) (h.apart userId')
      obtain rfl := List.mem_singleton.mp hw'
      rw [hgrants]
      exact fun heq => hsame (Option.some.inj heq).symm

/-- A statement gives nothing that its trigger has not checked. -/
theorem Separates.next (h : Separates db tx) {n : Nat} {input : Input} {e : Effect Proc Write Lock}
    (he : statement tx.pc n (system.view tx.log db) input = some e) :
    Separates db ⟨e.next, tx.locks ++ system.kept e, tx.log ++ e.writes⟩ := by
  unfold statement at he
  cases htodo : tx.pc.todo with
  | nil =>
    rw [htodo] at he
    cases he
  | cons s rest =>
    rw [htodo] at he
    cases hguards : s.guards with
    | none =>
      obtain ⟨hphase, hnothing⟩ := effect_plain hguards he
      exact h.plain hphase hnothing
    | some userId =>
      have hlocked (hphase : tx.pc.phase ≠ .idle) : Lock.identity userId ∈ tx.locks :=
        h.trigger hphase s (by rw [htodo]; rfl) userId hguards
      have hheld {holds : List Lock} (hlock : Lock.identity userId ∈ tx.locks ++ holds) :
          ∀ userId', s.guards = some userId' → Lock.identity userId' ∈ tx.locks ++ holds := by
        intro userId' hguards'
        obtain rfl := Option.some.inj (hguards.symm.trans hguards')
        exact hlock
      obtain ⟨-, rfl⟩ | ⟨hphase, hallowed, rfl⟩ | ⟨hphase, hidle, hwrites⟩ := effect_guarded hguards he
      · exact h.triggers htodo (hheld (List.mem_append_right _ (List.mem_singleton_self _)))
          fun hchecked => by cases hchecked
      · have hlock := hlocked (by rw [hphase]; decide)
        exact h.triggers htodo (hheld (List.mem_append_left _ hlock)) fun _ => hallowed
      · have hlock := hlocked (by rw [hphase]; decide)
        have hallowed := h.checked hphase s (by rw [htodo]; rfl)
        obtain hnone | ⟨w, hw, hgrants, hboth⟩ := hwrites
        · exact h.plain hidle fun w hw => absurd (hnone ▸ hw) List.not_mem_nil
        · exact h.gives hgrants hlock (hboth (h.apart userId) hallowed) hidle hw

end

theorem separates_start {db : Database} (hdb : ∀ userId, ¬ Both db userId) (request : Request) :
    Separates db ⟨.start request, [], []⟩ where
  locked w hw := absurd hw List.not_mem_nil
  trigger hphase := absurd rfl hphase
  checked hphase := by cases hphase
  apart := hdb

/-- No commit makes an account administrator and creator. -/
theorem separation_outline : Outline system Free (fun _ db => ∀ userId, ¬ Both db userId)
    fun _ db tx => Separates db tx where
  start n db pc hdb hstarts := by
    have hstart : decide (pc = .start pc.request) = true := (Bool.and_eq_true_iff.mp hstarts).1
    rw [of_decide_eq_true hstart]
    exact separates_start hdb pc.request
  next n db tx input e _ h _ he := h.next he
  commit s t tx _ _ _ _ h := h.apart
  other s t tx u ux _ _ _ _ _ hapart _ _ _ h hu := h.other hu hapart
  elapse n db hdb := hdb
  elapses n db tx h :=
    have helapse (userId : UserId) : Fewer (system.elapse db) db userId := ⟨fun _ => id, id⟩
    ⟨h.locked, h.trigger,
      fun hphase s hs => (h.checked hphase s hs).mono fun userId _ => (helapse userId).view tx.log,
      fun userId => ((helapse userId).view tx.log).not_both (h.apart userId)⟩

/-- No request is open, and nobody is administrator and creator. -/
def SeparateAtFirst (s : State Database Proc Write Lock) : Prop :=
  IsInitial s ∧ ∀ userId, ¬ Both s.db userId

/-- No run comes to an account that is administrator and creator. -/
theorem identities_apart {s : State Database Proc Write Lock}
    (h : Reach SeparateAtFirst system.step Free s) (userId : UserId) : ¬ Both s.db userId := by
  exact (separation_outline.invariant (fun _ hs => outlined_start hs.1 hs.2) h).rows userId

/-! ## A race -/

def oneAccount : State Database Proc Write Lock where
  db :=
    { now := 0
      users := ⟨[(1, .active)], by decide⟩
      userRoles := Table.empty
      creatorProfiles := Table.empty
      memberships := Table.empty
      sessions := ⟨[(10, ⟨1, "token", 100, false, none, 0⟩)], by decide⟩ }
  txs := Table.empty
  commits := 0

def anyInput : Input := ⟨20, "new token", 100, true⟩

/-- It is made an administrator while it registers a creator profile. -/
def raced : List (Action Proc Input) :=
  [.start 1 (.start (.upsertCreatorProfile ⟨1, 10, [], "token"⟩ ⟨"handle", "name"⟩ 0)),
    .start 2 (.start (.grantAdmin 1)), .next 2 anyInput, .next 2 anyInput, .next 2 anyInput,
    .next 1 anyInput, .next 1 anyInput, .next 2 anyInput, .next 2 anyInput, .commit 2,
    .next 1 anyInput, .abort 1]

theorem raced_runs : (exec system.step oneAccount raced).isSome = true := by decide +kernel

def racedEnd : State Database Proc Write Lock := (exec system.step oneAccount raced).get raced_runs

/-- The administrator of the race has no creator role and no profile. -/
theorem identities_apart_raced :
    racedEnd.db.hasRole 1 (.privileged .admin) = true ∧ ¬ Both racedEnd.db 1 := by
  have hfirst : SeparateAtFirst oneAccount := ⟨rfl, fun _ hboth => by cases hboth.1⟩
  have hreach : Reach SeparateAtFirst system.step Free racedEnd :=
    reach_of_exec hfirst (Option.some_get raced_runs).symm
  exact ⟨by decide +kernel, identities_apart hreach 1⟩

end FractalStudio.Accounts
