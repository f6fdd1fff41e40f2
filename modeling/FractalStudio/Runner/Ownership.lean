import FractalStudio.Lib.Slots
import FractalStudio.Lib.Transition
import FractalStudio.Runner.JobRunner

/-!
# Ownership of a runtime directory

The constructor and destructor of `JobRunner` in any number of processes over one lock file. A
newcomer tries the exclusive lock once; who gets it cancels the rows that earlier processes left
and converts to the shared lock, which gives the exclusive one up first. Everyone else waits for
the shared lock.
-/
namespace FractalStudio.Runner.Ownership

open Transition

abbrev Pid := Nat

/-- Where a process is between `open` and the end of `~JobRunner`. -/
inductive Phase where
  /-- Before `flock(LOCK_EX | LOCK_NB)`. -/
  | opened
  /-- Holds the exclusive lock, before `cancelInterruptedRuns`. -/
  | exclusive
  /-- Holds it after. -/
  | reconciled
  /-- Has given it up for the shared lock that it waits for. -/
  | converting
  /-- Found the lock taken, waits for the shared lock. -/
  | joining
  /-- Constructed. -/
  | live
  /-- In `~JobRunner`, waiting for the background tasks. -/
  | shuttingDown
  deriving DecidableEq

/-- `LOCK_EX` is held. -/
def Phase.holdsExclusive : Phase → Bool
  | .exclusive => true
  | .reconciled => true
  | _ => false

/-- `LOCK_SH` is held: a live `JobRunner`. -/
def Phase.holdsShared : Phase → Bool
  | .live => true
  | .shuttingDown => true
  | _ => false

structure Proc where
  phase : Phase
  /-- No other process has been live since this one opened the lock file. -/
  alone : Bool
  backgroundTasks : Nat
  deriving DecidableEq

/-- A row of `runs`, with the process that created it. -/
structure Row where
  owner : Pid
  status : RunStatus
  deriving DecidableEq

/-- The processes with their phases, and the rows of runs. -/
structure State where
  procs : Table Pid Proc
  rows : Table RunId Row

def cancelInterruptedRuns (rows : Table RunId Row) : Table RunId Row :=
  rows.updateWhere (fun _ r => r.status.active) fun _ r => { r with status := .cancelled }

def State.lockHeld (s : State) : Bool :=
  s.procs.any fun _ p => p.phase.holdsExclusive || p.phase.holdsShared

def State.exclusiveHeld (s : State) : Bool := s.procs.any fun _ p => p.phase.holdsExclusive

def State.someLive (s : State) : Bool := s.procs.any fun _ p => p.phase.holdsShared

inductive Action where
  | openLock (p : Pid)
  | tryExclusive (p : Pid)
  /-- `cancelInterruptedRuns` returns, or throws and the constructor with it. -/
  | reconcile (p : Pid) (returns : Bool)
  /-- `flock(LOCK_SH)` drops the exclusive lock. -/
  | downgrade (p : Pid)
  | grantShared (p : Pid)
  /-- `flock(LOCK_SH)` fails. -/
  | refuseShared (p : Pid)
  | createRun (p : Pid) (id : RunId)
  | setStatus (p : Pid) (id : RunId) (status : RunStatus)
  | beginTask (p : Pid)
  | endTask (p : Pid)
  | destroy (p : Pid)
  | release (p : Pid)
  /-- The process dies; the kernel drops its lock. -/
  | die (p : Pid)

def State.put (s : State) (p : Pid) (proc : Proc) : State := { s with procs := s.procs.put p proc }

def State.drop (s : State) (p : Pid) : State := { s with procs := s.procs.erase p }

/-- A process becomes live: no other start is alone any more. -/
def State.enter (s : State) (p : Pid) (proc : Proc) : State :=
  let procs := s.procs.updateWhere (fun _ _ => true) fun _ q => { q with alone := false }
  { s with procs := procs.put p { proc with phase := .live } }

def procStep (s : State) (proc : Proc) : Action → Option State
  | .tryExclusive p =>
    if proc.phase ≠ .opened then none
    else some (s.put p { proc with phase := if s.lockHeld then .joining else .exclusive })
  | .reconcile p returns =>
    if proc.phase ≠ .exclusive then none
    else if returns then
      some ({ s with rows := cancelInterruptedRuns s.rows }.put p { proc with phase := .reconciled })
    else some (s.drop p)
  | .downgrade p =>
    if proc.phase ≠ .reconciled then none
    else some (s.put p { proc with phase := .converting })
  | .grantShared p =>
    if proc.phase ≠ .converting ∧ proc.phase ≠ .joining then none
    else if s.exclusiveHeld then none
    else some (s.enter p proc)
  | .refuseShared p =>
    if proc.phase ≠ .converting ∧ proc.phase ≠ .joining then none
    else some (s.drop p)
  | .createRun p id =>
    if proc.phase.holdsShared then
      (s.rows.insert? id ⟨p, .queued⟩).map fun rows => { s with rows := rows }
    else none
  | .setStatus p id status =>
    if proc.phase.holdsShared ∧ (s.rows.find? id).any (fun r => r.owner = p) then
      some { s with rows := s.rows.modify id fun r => { r with status := status } }
    else none
  | .beginTask p =>
    if proc.phase ≠ .live then none
    else some (s.put p { proc with backgroundTasks := proc.backgroundTasks + 1 })
  | .endTask p =>
    if proc.phase.holdsShared ∧ 0 < proc.backgroundTasks then
      some (s.put p { proc with backgroundTasks := proc.backgroundTasks - 1 })
    else none
  | .destroy p =>
    if proc.phase ≠ .live then none
    else some (s.put p { proc with phase := .shuttingDown })
  | .release p =>
    if proc.phase = .shuttingDown ∧ proc.backgroundTasks = 0 then some (s.drop p) else none
  | .die p => some (s.drop p)
  | .openLock _ => none

def Action.pid : Action → Pid
  | .openLock p => p
  | .tryExclusive p => p
  | .reconcile p _ => p
  | .downgrade p => p
  | .grantShared p => p
  | .refuseShared p => p
  | .createRun p _ => p
  | .setStatus p _ _ => p
  | .beginTask p => p
  | .endTask p => p
  | .destroy p => p
  | .release p => p
  | .die p => p

def step (s : State) (a : Action) : Option State :=
  match s.procs.find? a.pid with
  | some proc => procStep s proc a
  | none =>
    match a with
    | .openLock p => some (s.put p ⟨.opened, !s.someLive, 0⟩)
    | _ => none

/-- No process runs; the rows are whatever earlier processes left. -/
def IsInitial (s : State) : Prop := s.procs = Table.empty

/-- A process that holds the exclusive lock ends before it has reconciled only when nobody whose
start has been alone is waiting to join. -/
def orderly (s : State) : Action → Bool
  | .reconcile p false => !(s.procs.any fun q proc =>
      q ≠ p && proc.phase = .joining && proc.alone)
  | .die p => !((s.procs.find? p).any fun proc => proc.phase = .exclusive) ||
      !(s.procs.any fun q proc => q ≠ p && proc.phase = .joining && proc.alone)
  | _ => true

def Orderly (s : State) (a : Action) : Prop := orderly s a = true

/-- No row is queued or running. -/
def Idle (s : State) : Prop := ∀ id row, s.rows.find? id = some row → row.status.active = false

/-! ## The invariant -/

/-- Who holds the lock and whose runs are whose. -/
structure Inv (s : State) : Prop where
  /-- The exclusive lock excludes every other holder. -/
  excludes : ∀ p a q b, s.procs.find? p = some a → s.procs.find? q = some b →
    a.phase.holdsExclusive = true →
      b.phase.holdsExclusive = true ∨ b.phase.holdsShared = true → p = q
  /-- While a start is alone nobody is live. -/
  alone : ∀ p a q b, s.procs.find? p = some a → s.procs.find? q = some b →
    a.alone = true → a.phase.holdsShared = false → b.phase.holdsShared = false
  reconciled : ∀ p a, s.procs.find? p = some a → a.phase = .reconciled → Idle s
  converting : ∀ p a, s.procs.find? p = some a → a.phase = .converting → a.alone = true → Idle s
  joining : ∀ p a, s.procs.find? p = some a → a.phase = .joining → a.alone = true →
    Idle s ∨ ∃ q b, s.procs.find? q = some b ∧ b.phase = .exclusive

section
variable {s s' : State} {p : Pid} {proc : Proc}

theorem idle_cancelInterruptedRuns (procs : Table Pid Proc) :
    Idle ⟨procs, cancelInterruptedRuns s.rows⟩ := by
  intro id row hrow
  rw [cancelInterruptedRuns, Table.find?_updateWhere] at hrow
  obtain ⟨r, -, rfl⟩ := Option.map_eq_some_iff.mp hrow
  split
  · rfl
  · next h => exact Bool.eq_false_iff.mpr h

theorem not_exclusiveHeld (h : s.exclusiveHeld = false) {q : Pid} {b : Proc}
    (hb : s.procs.find? q = some b) : b.phase.holdsExclusive = false :=
  Table.any_eq_false.mp h q b hb

theorem Inv.idle (h : Inv s) (hprocs : s'.procs = s.procs) (hidle : Idle s') : Inv s' where
  excludes := by rw [hprocs]; exact h.excludes
  alone := by rw [hprocs]; exact h.alone
  reconciled _ _ _ _ := hidle
  converting _ _ _ _ _ := hidle
  joining _ _ _ _ _ := .inl hidle

theorem Inv.live (h : Inv s) (hprocs : s'.procs = s.procs) (hp : s.procs.find? p = some proc)
    (hlive : proc.phase.holdsShared = true) : Inv s' where
  excludes := by rw [hprocs]; exact h.excludes
  alone := by rw [hprocs]; exact h.alone
  reconciled q a ha hphase := by
    rw [hprocs] at ha
    have heq := h.excludes q a p proc ha hp (by rw [hphase]; rfl) (.inr hlive)
    subst heq
    obtain rfl := Option.some.inj (hp.symm.trans ha)
    rw [hphase] at hlive
    cases hlive
  converting q a ha hphase halone := by
    rw [hprocs] at ha
    have hno := h.alone q a p proc ha hp halone (by rw [hphase]; rfl)
    rw [hlive] at hno
    cases hno
  joining q a ha hphase halone := by
    rw [hprocs] at ha
    have hno := h.alone q a p proc ha hp halone (by rw [hphase]; rfl)
    rw [hlive] at hno
    cases hno

theorem Inv.move (h : Inv s) (hp : s.procs.find? p = some proc) {proc' : Proc}
    (hex : proc'.phase.holdsExclusive = true →
      proc.phase.holdsExclusive = true ∨ s.lockHeld = false)
    (hsh : proc'.phase.holdsShared = proc.phase.holdsShared) (halone : proc'.alone = proc.alone)
    (hrec : proc'.phase = .reconciled → Idle s)
    (hconv : proc'.phase = .converting → proc.alone = true → Idle s)
    (hjoin : proc'.phase = .joining → proc.alone = true → Idle s ∨
      ∃ q b, q ≠ p ∧ s.procs.find? q = some b ∧ b.phase = .exclusive)
    (hleave : proc.phase = .exclusive → Idle s) : Inv (s.put p proc') := by
  have hheld : s.lockHeld = false → ∀ q b, s.procs.find? q = some b →
      b.phase.holdsExclusive = false ∧ b.phase.holdsShared = false := by
    intro hfree q b hb
    have hnone := Table.any_eq_false.mp hfree q b hb
    rw [Bool.or_eq_false_iff] at hnone
    exact hnone
  refine ⟨?_, ?_, ?_, ?_, ?_⟩
  · intro x a y b hx hy hax hby
    rcases Table.find?_of_put hx with ⟨hxp, hxa⟩ | ⟨-, hxo⟩ <;>
      rcases Table.find?_of_put hy with ⟨hyp, hyb⟩ | ⟨-, hyo⟩
    · rw [hxp, hyp]
    · rw [hxp]
      rw [hxa] at hax
      rcases hex hax with hold | hfree
      · exact h.excludes p proc y b hp hyo hold hby
      · obtain ⟨hne, hns⟩ := hheld hfree y b hyo
        rw [hne, hns] at hby
        rcases hby with hby | hby <;> cases hby
    · rw [hyp]
      rw [hyb, hsh] at hby
      rcases hby with hby | hby
      · rcases hex hby with hold | hfree
        · exact h.excludes x a p proc hxo hp hax (.inl hold)
        · rw [(hheld hfree x a hxo).1] at hax
          cases hax
      · exact h.excludes x a p proc hxo hp hax (.inr hby)
    · exact h.excludes x a y b hxo hyo hax hby
  · intro x a y b hx hy hax hns
    rcases Table.find?_of_put hx with ⟨hxp, hxa⟩ | ⟨-, hxo⟩ <;>
      rcases Table.find?_of_put hy with ⟨hyp, hyb⟩ | ⟨-, hyo⟩
    · rw [hyb, ← hxa]
      exact hns
    · rw [hxa, halone] at hax
      rw [hxa, hsh] at hns
      exact h.alone p proc y b hp hyo hax hns
    · rw [hyb, hsh]
      exact h.alone x a p proc hxo hp hax hns
    · exact h.alone x a y b hxo hyo hax hns
  · intro x a hx hphase
    rcases Table.find?_of_put hx with ⟨-, hxa⟩ | ⟨-, hxo⟩
    · rw [hxa] at hphase
      exact hrec hphase
    · exact h.reconciled x a hxo hphase
  · intro x a hx hphase hax
    rcases Table.find?_of_put hx with ⟨-, hxa⟩ | ⟨-, hxo⟩
    · rw [hxa] at hphase hax
      rw [halone] at hax
      exact hconv hphase hax
    · exact h.converting x a hxo hphase hax
  · intro x a hx hphase hax
    rcases Table.find?_of_put hx with ⟨-, hxa⟩ | ⟨-, hxo⟩
    · rw [hxa] at hphase hax
      rw [halone] at hax
      rcases hjoin hphase hax with hidle | ⟨q, b, hq, hb, hbx⟩
      · exact .inl hidle
      · exact .inr ⟨q, b, (Table.find?_put_ne s.procs proc' hq).trans hb, hbx⟩
    · rcases h.joining x a hxo hphase hax with hidle | ⟨q, b, hb, hbx⟩
      · exact .inl hidle
      · by_cases hq : q = p
        · rw [hq, hp] at hb
          rw [← Option.some.inj hb] at hbx
          exact .inl (hleave hbx)
        · exact .inr ⟨q, b, (Table.find?_put_ne s.procs proc' hq).trans hb, hbx⟩

theorem Inv.drop (h : Inv s) (hp : s.procs.find? p = some proc)
    (hsafe : proc.phase = .exclusive → ∀ q b, q ≠ p → s.procs.find? q = some b →
      b.phase = .joining → b.alone = false) : Inv (s.drop p) := by
  refine ⟨?_, ?_, ?_, ?_, ?_⟩
  · intro x a y b hx hy
    exact h.excludes x a y b (Table.find?_of_erase hx).2 (Table.find?_of_erase hy).2
  · intro x a y b hx hy
    exact h.alone x a y b (Table.find?_of_erase hx).2 (Table.find?_of_erase hy).2
  · intro x a hx
    exact h.reconciled x a (Table.find?_of_erase hx).2
  · intro x a hx
    exact h.converting x a (Table.find?_of_erase hx).2
  · intro x a hx hphase hax
    obtain ⟨hxp, hxo⟩ := Table.find?_of_erase hx
    rcases h.joining x a hxo hphase hax with hidle | ⟨q, b, hb, hbx⟩
    · exact .inl hidle
    · by_cases hq : q = p
      · rw [hq, hp] at hb
        rw [← Option.some.inj hb] at hbx
        rw [hsafe hbx x a hxp hxo hphase] at hax
        cases hax
      · refine .inr ⟨q, b, ?_, hbx⟩
        show (s.procs.erase p).find? q = some b
        rw [Table.find?_erase, if_neg hq]
        exact hb

theorem Inv.enter (hfree : s.exclusiveHeld = false) : Inv (s.enter p proc) := by
  have hold : ∀ x a, (s.enter p proc).procs.find? x = some a →
      a.phase = .live ∨ ∃ b, s.procs.find? x = some b ∧ a = { b with alone := false } := by
    intro x a hx
    rcases Table.find?_of_put hx with ⟨-, rfl⟩ | ⟨-, hx⟩
    · exact .inl rfl
    · rw [Table.find?_updateWhere] at hx
      obtain ⟨b, hb, rfl⟩ := Option.map_eq_some_iff.mp hx
      exact .inr ⟨b, hb, if_pos rfl⟩
  have hnone : ∀ x a, (s.enter p proc).procs.find? x = some a →
      a.phase.holdsExclusive = false := by
    intro x a hx
    rcases hold x a hx with hlive | ⟨b, hb, rfl⟩
    · rw [hlive]
      rfl
    · have hno : b.phase.holdsExclusive = false := not_exclusiveHeld hfree hb
      exact hno
  have halone : ∀ x a, (s.enter p proc).procs.find? x = some a → a.alone = true →
      a.phase = .live := by
    intro x a hx hax
    rcases hold x a hx with hlive | ⟨b, -, rfl⟩
    · exact hlive
    · cases hax
  refine ⟨?_, ?_, ?_, ?_, ?_⟩
  · intro x a y b hx _ hax
    rw [hnone x a hx] at hax
    cases hax
  · intro x a y b hx _ hax hns
    rw [halone x a hx hax] at hns
    cases hns
  · intro x a hx hphase
    have hno := hnone x a hx
    rw [hphase] at hno
    cases hno
  · intro x a hx hphase hax
    rw [halone x a hx hax] at hphase
    cases hphase
  · intro x a hx hphase hax
    rw [halone x a hx hax] at hphase
    cases hphase

theorem Inv.openLock (h : Inv s) (hp : s.procs.find? p = none) :
    Inv (s.put p ⟨.opened, !s.someLive, 0⟩) := by
  have hne : ∀ {x a}, s.procs.find? x = some a → x ≠ p := by
    rintro x a hx rfl
    rw [hp] at hx
    cases hx
  refine ⟨?_, ?_, ?_, ?_, ?_⟩
  · intro x a y b hx hy hax hby
    rcases Table.find?_of_put hx with ⟨-, rfl⟩ | ⟨-, hxo⟩
    · cases hax
    rcases Table.find?_of_put hy with ⟨-, rfl⟩ | ⟨-, hyo⟩
    · rcases hby with hby | hby <;> cases hby
    exact h.excludes x a y b hxo hyo hax hby
  · intro x a y b hx hy hax hns
    rcases Table.find?_of_put hy with ⟨-, rfl⟩ | ⟨-, hyo⟩
    · rfl
    rcases Table.find?_of_put hx with ⟨-, rfl⟩ | ⟨-, hxo⟩
    · have hnone : s.someLive = false := by simpa using hax
      exact Table.any_eq_false.mp hnone y b hyo
    exact h.alone x a y b hxo hyo hax hns
  · intro x a hx hphase
    rcases Table.find?_of_put hx with ⟨-, rfl⟩ | ⟨-, hxo⟩
    · cases hphase
    exact h.reconciled x a hxo hphase
  · intro x a hx hphase hax
    rcases Table.find?_of_put hx with ⟨-, rfl⟩ | ⟨-, hxo⟩
    · cases hphase
    exact h.converting x a hxo hphase hax
  · intro x a hx hphase hax
    rcases Table.find?_of_put hx with ⟨-, rfl⟩ | ⟨-, hxo⟩
    · cases hphase
    rcases h.joining x a hxo hphase hax with hidle | ⟨q, b, hb, hbx⟩
    · exact .inl hidle
    · exact .inr ⟨q, b, (Table.find?_put_ne s.procs _ (hne hb)).trans hb, hbx⟩

theorem Inv.taken (h : Inv s) (hp : s.procs.find? p = some proc) (hphase : proc.phase = .opened)
    (hheld : s.lockHeld = true) (halone : proc.alone = true) :
    Idle s ∨ ∃ q b, q ≠ p ∧ s.procs.find? q = some b ∧ b.phase = .exclusive := by
  obtain ⟨q, b, hb, hlock⟩ := Table.any_eq_true.mp hheld
  have hq : q ≠ p := by
    rintro rfl
    obtain rfl := Option.some.inj (hp.symm.trans hb)
    rw [hphase] at hlock
    cases hlock
  have hshared : b.phase.holdsShared = false := h.alone p proc q b hp hb halone (by rw [hphase]; rfl)
  rw [hshared, Bool.or_false] at hlock
  cases hbp : b.phase with
  | exclusive => exact .inr ⟨q, b, hq, hb, hbp⟩
  | reconciled => exact .inl (h.reconciled q b hb hbp)
  | opened => rw [hbp] at hlock; cases hlock
  | converting => rw [hbp] at hlock; cases hlock
  | joining => rw [hbp] at hlock; cases hlock
  | live => rw [hbp] at hlock; cases hlock
  | shuttingDown => rw [hbp] at hlock; cases hlock

/-- A living process takes its own step. -/
theorem step_found {a : Action} (hp : s.procs.find? a.pid = some proc) :
    step s a = procStep s proc a := by
  unfold step
  rw [hp]

/-- Every orderly step keeps the invariant. -/
theorem Inv.step {a : Action} (h : Inv s) (hok : Orderly s a) (hs : step s a = some s') :
    Inv s' := by
  cases hp : s.procs.find? a.pid with
  | some proc =>
    rw [step_found hp] at hs
    cases a with
    | openLock => cases hs
    | tryExclusive p =>
      rw [procStep] at hs
      obtain ⟨hphase, hs⟩ := eq_of_unless hs
      obtain rfl := Option.some.inj hs
      cases hheld : s.lockHeld with
      | true =>
        refine h.move hp (fun hx => by cases hx) (by rw [hphase]; rfl) rfl (fun hx => by cases hx)
          (fun hx => by cases hx) (fun _ ha => h.taken hp hphase hheld ha) fun hx => ?_
        rw [hphase] at hx
        cases hx
      | false =>
        refine h.move hp (fun _ => .inr hheld) (by rw [hphase]; rfl) rfl (fun hx => by cases hx)
          (fun hx => by cases hx) (fun hx => by cases hx) fun hx => ?_
        rw [hphase] at hx
        cases hx
    | reconcile p returns =>
      rw [procStep] at hs
      obtain ⟨hphase, hs⟩ := eq_of_unless hs
      split at hs
      · obtain rfl := Option.some.inj hs
        have hidle := idle_cancelInterruptedRuns (s := s) s.procs
        have hbase : Inv { s with rows := cancelInterruptedRuns s.rows } := h.idle rfl hidle
        exact hbase.move hp (fun _ => .inl (by rw [hphase]; rfl)) (by rw [hphase]; rfl) rfl
          (fun _ => hidle) (fun _ _ => hidle) (fun _ _ => .inl hidle) fun _ => hidle
      · next hthrew =>
        obtain rfl := Option.some.inj hs
        refine h.drop hp fun _ q b hq hb hjoin => ?_
        rw [Bool.not_eq_true] at hthrew
        subst hthrew
        have hnone : s.procs.any (fun q proc => q ≠ p && proc.phase = .joining && proc.alone) =
            false := by simpa [Orderly, orderly] using hok
        have hqb := Table.any_eq_false.mp hnone q b hb
        simpa [hq, hjoin] using hqb
    | downgrade p =>
      rw [procStep] at hs
      obtain ⟨hphase, hs⟩ := eq_of_unless hs
      obtain rfl := Option.some.inj hs
      have hidle := h.reconciled p proc hp hphase
      exact h.move hp (fun hx => by cases hx) (by rw [hphase]; rfl) rfl (fun _ => hidle)
        (fun _ _ => hidle) (fun _ _ => .inl hidle) fun _ => hidle
    | grantShared p =>
      rw [procStep] at hs
      split at hs
      · cases hs
      split at hs
      · cases hs
      next hfree =>
      obtain rfl := Option.some.inj hs
      exact Inv.enter (Bool.eq_false_iff.mpr hfree)
    | refuseShared p =>
      rw [procStep] at hs
      split at hs
      · cases hs
      next hphase =>
      obtain rfl := Option.some.inj hs
      refine h.drop hp fun hx => ?_
      rw [hx] at hphase
      exact absurd ⟨by decide, by decide⟩ hphase
    | createRun p id =>
      rw [procStep] at hs
      split at hs
      · next hlive =>
        obtain ⟨rows, -, rfl⟩ := Option.map_eq_some_iff.mp hs
        exact h.live rfl hp hlive
      · cases hs
    | setStatus p id status =>
      rw [procStep] at hs
      split at hs
      · next hlive =>
        obtain rfl := Option.some.inj hs
        exact h.live rfl hp hlive.1
      · cases hs
    | beginTask p =>
      rw [procStep] at hs
      obtain ⟨hphase, hs⟩ := eq_of_unless hs
      obtain rfl := Option.some.inj hs
      refine h.move hp .inl rfl rfl ?_ ?_ ?_ ?_
      all_goals
        intro hx
        rw [hphase] at hx
        cases hx
    | endTask p =>
      rw [procStep] at hs
      split at hs
      · next hlive =>
        obtain rfl := Option.some.inj hs
        refine h.move hp .inl rfl rfl ?_ ?_ ?_ ?_
        all_goals
          intro hx
          rw [hx] at hlive
          cases hlive.1
      · cases hs
    | destroy p =>
      rw [procStep] at hs
      obtain ⟨hphase, hs⟩ := eq_of_unless hs
      obtain rfl := Option.some.inj hs
      refine h.move hp (fun hx => by cases hx) (by rw [hphase]; rfl) rfl (fun hx => by cases hx)
        (fun hx => by cases hx) (fun hx => by cases hx) fun hx => ?_
      rw [hphase] at hx
      cases hx
    | release p =>
      rw [procStep] at hs
      split at hs
      · next hphase =>
        obtain rfl := Option.some.inj hs
        refine h.drop hp fun hx => ?_
        rw [hphase.1] at hx
        cases hx
      · cases hs
    | die p =>
      obtain rfl := Option.some.inj hs
      refine h.drop hp fun hx q b hq hb hjoin => ?_
      have hp' : s.procs.find? p = some proc := hp
      have hnone : s.procs.any (fun q proc => q ≠ p && proc.phase = .joining && proc.alone) =
          false := by simpa [Orderly, orderly, hp', hx] using hok
      have hqb := Table.any_eq_false.mp hnone q b hb
      simpa [hq, hjoin] using hqb
  | none =>
    unfold Ownership.step at hs
    rw [hp] at hs
    cases a with
    | openLock p =>
      obtain rfl := Option.some.inj hs
      exact h.openLock hp
    | _ => cases hs

/-- No process is alive at first. -/
theorem Inv.init (h : IsInitial s) : Inv s := by
  rw [IsInitial] at h
  refine ⟨?_, ?_, ?_, ?_, ?_⟩
  all_goals
    intro x a
    rw [h]
  · intro y b hx
    cases hx
  · intro y b hx
    cases hx
  · intro hx
    cases hx
  · intro hx
    cases hx
  · intro hx
    cases hx

end

/-- Interrupted runs are cancelled only while nobody is live, and the first live process finds no row
queued or running. -/
theorem reconciliation_sound {s s' : State} {p : Pid} {proc : Proc}
    (h : Reach IsInitial step Orderly s) (hp : s.procs.find? p = some proc) :
    (∀ returns, step s (.reconcile p returns) = some s' →
      ∀ q b, s.procs.find? q = some b → b.phase.holdsShared = false) ∧
      (step s (.grantShared p) = some s' → proc.alone = true → Idle s') := by
  have hinv : Inv s := h.invariant (fun _ => Inv.init) fun _ _ _ => Inv.step
  constructor
  · intro returns hs q b hb
    rw [step_found (a := .reconcile p returns) hp] at hs
    have hphase : proc.phase = .exclusive := by
      by_contra hphase
      rw [show procStep s proc (.reconcile p returns) = none from if_pos hphase] at hs
      cases hs
    cases hshared : b.phase.holdsShared with
    | false => rfl
    | true =>
      have heq := hinv.excludes p proc q b hp hb (by rw [hphase]; rfl) (.inr hshared)
      subst heq
      obtain rfl := Option.some.inj (hp.symm.trans hb)
      rw [hphase] at hshared
      cases hshared
  · intro hs halone
    rw [step_found (a := .grantShared p) hp, procStep] at hs
    split at hs
    · cases hs
    next hphase =>
    split at hs
    · cases hs
    next hfree =>
    obtain rfl := Option.some.inj hs
    have hidle : Idle s := by
      rw [not_and_or, not_not, not_not] at hphase
      rcases hphase with hphase | hphase
      · exact hinv.converting p proc hp hphase halone
      · rcases hinv.joining p proc hp hphase halone with hidle | ⟨q, b, hb, hbx⟩
        · exact hidle
        · have hno := not_exclusiveHeld (Bool.eq_false_iff.mpr hfree) hb
          rw [hbx] at hno
          cases hno
    exact hidle

/-- A process has died and left run `r` running. -/
def interrupted : State := ⟨Table.empty, Table.empty.put "r" ⟨0, .running⟩⟩

theorem isInitial_interrupted : IsInitial interrupted := rfl

/-- Two processes start; the first reconciles, the second waits for it. -/
def twoStarts : List Action :=
  [.openLock 1, .tryExclusive 1, .openLock 2, .tryExclusive 2, .reconcile 1 true, .downgrade 1]

theorem twoStarts_runs : (exec (guarded step orderly) interrupted twoStarts).isSome = true := by
  decide +kernel

def twoStartsEnd : State := (exec (guarded step orderly) interrupted twoStarts).get twoStarts_runs

/-- Two processes have started, the second is about to share the lock. -/
theorem reconciliation_sound_twoStarts :
    ∃ s', step twoStartsEnd (.grantShared 2) = some s' ∧ Idle s' := by
  have hreach : Reach IsInitial step Orderly twoStartsEnd :=
    reach_of_guarded_exec isInitial_interrupted (Option.some_get twoStarts_runs).symm
  have hp : twoStartsEnd.procs.find? 2 = some ⟨.joining, true, 0⟩ := by decide +kernel
  have hsome : (step twoStartsEnd (.grantShared 2)).isSome = true := by decide +kernel
  obtain ⟨s', hs⟩ := Option.isSome_iff_exists.mp hsome
  exact ⟨s', hs, (reconciliation_sound hreach hp).2 hs rfl⟩

/-- The reconciliation of the first process throws while the second waits. -/
def failedStart : List Action :=
  [.openLock 1, .tryExclusive 1, .openLock 2, .tryExclusive 2, .reconcile 1 false]

/-- The second process becomes live with the run still running; nobody was live before. -/
theorem joined_without_reconciliation : ∃ s s' proc, Reach IsInitial step Free s ∧
    s.procs.find? 2 = some proc ∧ proc.alone = true ∧ step s (.grantShared 2) = some s' ∧
      ¬ Idle s' := by
  have hrun : (exec step interrupted failedStart).any (fun s =>
      (s.procs.find? 2).any (fun proc => proc.alone) &&
      (step s (.grantShared 2)).any fun s' =>
        (s'.rows.find? "r").any fun row => row.status.active) = true := by
    decide +kernel
  simp only [Option.any_eq_true, Bool.and_eq_true] at hrun
  obtain ⟨s, hs, ⟨proc, hp, halone⟩, s', hs', row, hrow, hactive⟩ := hrun
  refine ⟨s, s', proc, reach_of_exec isInitial_interrupted hs, hp, halone, hs', fun hidle => ?_⟩
  rw [hidle "r" row hrow] at hactive
  cases hactive

end FractalStudio.Runner.Ownership
