import FractalStudio.Lib.Slots
import FractalStudio.Lib.Transition

/-!
# Transactions that read what is committed

Transactions run statement by statement. A statement sees the rows that are committed when it runs,
under the rows that its own transaction has written, and waits for the locks of the others. What it
writes is locked and becomes visible when the transaction commits; locks are kept to its end.
-/
namespace FractalStudio.ReadCommitted

open Transition

/-- A database whose rows are written one at a time. -/
structure Store (D W K R : Type) [DecidableEq K] where
  row : D → K → R
  run : W → D → D
  key : W → K
  value : W → R
  row_run : ∀ w d k, row (run w d) k = if k = key w then value w else row d k

/-- What a statement does: locks that it waits for, locks that it keeps, rows, and what comes next. -/
structure Effect (S W L : Type) where
  awaits : List L
  holds : List L
  writes : List W
  next : S

structure Tx (S W L : Type) where
  pc : S
  locks : List L
  log : List W
  deriving DecidableEq

structure State (D S W L : Type) where
  db : D
  txs : Table Nat (Tx S W L)
  /-- The number of transactions that have committed. -/
  commits : Nat

/-- Programs over a store. Statements are given the number of commits that they see. -/
structure System (D W K R L S I : Type) [DecidableEq K] where
  store : Store D W K R
  conflicts : L → L → Bool
  conflicts_comm : ∀ l m, conflicts l m = conflicts m l
  writeLock : K → L
  starts : Nat → D → S → Bool
  statement : S → Nat → D → I → Option (Effect S W L)
  ends : S → Bool
  elapse : D → D
  row_elapse : ∀ d k, store.row (elapse d) k = store.row d k

inductive Action (S I : Type) where
  | start (t : Nat) (pc : S)
  | next (t : Nat) (input : I)
  | commit (t : Nat)
  /-- An error, a lost connection or a deadlock. -/
  | abort (t : Nat)
  | elapse

variable {D W K R L S I : Type} [DecidableEq K]

namespace System
variable (sys : System D W K R L S I)

/-- A database under some writes. -/
def view (log : List W) (d : D) : D := log.foldl (fun d w => sys.store.run w d) d

def writeLocks (writes : List W) : List L := writes.map fun w => sys.writeLock (sys.store.key w)

/-- The locks that a transaction has after a statement. -/
def kept (e : Effect S W L) : List L := e.holds ++ sys.writeLocks e.writes

/-- No lock of a list conflicts with one of another. -/
def apart (locks others : List L) : Bool :=
  locks.all fun l => others.all fun m => !sys.conflicts l m

/-- No other transaction has a lock in the way. -/
def free (s : State D S W L) (t : Nat) (e : Effect S W L) : Bool :=
  !s.txs.any fun u ux => u ≠ t && !sys.apart (e.awaits ++ sys.kept e) ux.locks

def advance (s : State D S W L) (t : Nat) (tx : Tx S W L) (e : Effect S W L) : State D S W L :=
  { s with txs := s.txs.put t ⟨e.next, tx.locks ++ sys.kept e, tx.log ++ e.writes⟩ }

def commits (s : State D S W L) (t : Nat) (tx : Tx S W L) : State D S W L :=
  ⟨sys.view tx.log s.db, s.txs.erase t, s.commits + 1⟩

def step (s : State D S W L) : Action S I → Option (State D S W L)
  | .start t pc =>
    if (s.txs.find? t).isNone ∧ sys.starts s.commits s.db pc then
      some { s with txs := s.txs.put t ⟨pc, [], []⟩ }
    else none
  | .next t input => do
    let tx ← s.txs.find? t
    let e ← sys.statement tx.pc s.commits (sys.view tx.log s.db) input
    if sys.free s t e then some (sys.advance s t tx e) else none
  | .commit t => do
    let tx ← s.txs.find? t
    if sys.ends tx.pc then some (sys.commits s t tx) else none
  | .abort t => some { s with txs := s.txs.erase t }
  | .elapse => some { s with db := sys.elapse s.db }

end System

variable {sys : System D W K R L S I}

section View
variable {log : List W} {d d' : D} {k : K}

theorem view_append (log log' : List W) (d : D) :
    sys.view (log ++ log') d = sys.view log' (sys.view log d) := List.foldl_append

theorem row_view_congr (log : List W) (h : sys.store.row d k = sys.store.row d' k) :
    sys.store.row (sys.view log d) k = sys.store.row (sys.view log d') k := by
  induction log generalizing d d' with
  | nil => exact h
  | cons w log ih =>
    apply ih
    rw [sys.store.row_run, sys.store.row_run, h]

theorem row_view_of_ne (h : ∀ w ∈ log, sys.store.key w ≠ k) :
    sys.store.row (sys.view log d) k = sys.store.row d k := by
  induction log generalizing d with
  | nil => rfl
  | cons w log ih =>
    have hrest := ih (d := sys.store.run w d) fun w' hw' => h w' (List.mem_cons_of_mem _ hw')
    refine hrest.trans ?_
    rw [sys.store.row_run, if_neg (Ne.symm (h w List.mem_cons_self))]

theorem row_of_written (h : ∃ w ∈ log, sys.store.key w = k) :
    ∃ w ∈ log, sys.store.key w = k ∧ ∀ d, sys.store.row (sys.view log d) k = sys.store.value w := by
  induction log with
  | nil =>
    obtain ⟨w, hw, -⟩ := h
    cases hw
  | cons w log ih =>
    by_cases hrest : ∃ w' ∈ log, sys.store.key w' = k
    · obtain ⟨w', hw', hkey, hvalue⟩ := ih hrest
      exact ⟨w', List.mem_cons_of_mem _ hw', hkey, fun d => hvalue _⟩
    · obtain ⟨w', hw', hkey⟩ := h
      obtain rfl | hw' := List.mem_cons.mp hw'
      · refine ⟨w', List.mem_cons_self, hkey, fun d => ?_⟩
        have hlast := row_view_of_ne (d := sys.store.run w' d) fun v hv hk => hrest ⟨v, hv, hk⟩
        refine hlast.trans ?_
        rw [sys.store.row_run, if_pos hkey.symm]
      · exact absurd ⟨w', hw', hkey⟩ hrest

theorem row_view_cases (log : List W) (k : K) :
    (∀ d, sys.store.row (sys.view log d) k = sys.store.row d k) ∨
      ∃ w ∈ log, sys.store.key w = k ∧ ∀ d, sys.store.row (sys.view log d) k = sys.store.value w := by
  by_cases h : ∃ w ∈ log, sys.store.key w = k
  · exact .inr (row_of_written h)
  · exact .inl fun d => row_view_of_ne fun w hw hkey => h ⟨w, hw, hkey⟩

end View

/-! ## Locks -/

theorem apart_iff {locks others : List L} : sys.apart locks others = true ↔
    ∀ l ∈ locks, ∀ m ∈ others, sys.conflicts l m = false := by
  simp only [System.apart, List.all_eq_true, Bool.not_eq_true']

theorem apart_comm {locks others : List L} (h : sys.apart locks others = true) :
    sys.apart others locks = true := by
  rw [apart_iff] at h ⊢
  intro m hm l hl
  rw [sys.conflicts_comm]
  exact h l hl m hm

/-- What a transaction has written is locked. -/
def System.Covers (sys : System D W K R L S I) (tx : Tx S W L) : Prop :=
  ∀ w ∈ tx.log, sys.writeLock (sys.store.key w) ∈ tx.locks

structure Sound (sys : System D W K R L S I) (s : State D S W L) : Prop where
  apart : ∀ t tx u ux, s.txs.find? t = some tx → s.txs.find? u = some ux → t ≠ u →
    sys.apart tx.locks ux.locks = true
  covers : ∀ t tx, s.txs.find? t = some tx → sys.Covers tx

theorem row_of_apart {tx ux : Tx S W L} (hcovers : sys.Covers tx)
    (hapart : sys.apart tx.locks ux.locks = true) {l : L} (hl : l ∈ ux.locks) {k : K}
    (hk : sys.conflicts (sys.writeLock k) l = true) (d : D) :
    sys.store.row (sys.view tx.log d) k = sys.store.row d k := by
  refine row_view_of_ne fun w hw hkey => ?_
  have hfree := apart_iff.mp hapart _ (hcovers w hw) l hl
  rw [hkey, hk] at hfree
  cases hfree

section Steps
variable {s s' : State D S W L} {t : Nat}

/-- Everything a step can do, with the guard it passed. -/
theorem step_cases {a : Action S I} (h : sys.step s a = some s') :
    (∃ t pc, a = .start t pc ∧ s.txs.find? t = none ∧ sys.starts s.commits s.db pc = true ∧
      s' = { s with txs := s.txs.put t ⟨pc, [], []⟩ }) ∨
    (∃ t input tx e, a = .next t input ∧ s.txs.find? t = some tx ∧
      sys.statement tx.pc s.commits (sys.view tx.log s.db) input = some e ∧
      sys.free s t e = true ∧ s' = sys.advance s t tx e) ∨
    (∃ t tx, a = .commit t ∧ s.txs.find? t = some tx ∧ sys.ends tx.pc = true ∧
      s' = sys.commits s t tx) ∨
    (∃ t, a = .abort t ∧ s' = { s with txs := s.txs.erase t }) ∨
    (a = .elapse ∧ s' = { s with db := sys.elapse s.db }) := by
  cases a with
  | start t pc =>
    rw [System.step] at h
    split at h
    · next hstart =>
      exact .inl ⟨t, pc, rfl, Option.isNone_iff_eq_none.mp hstart.1, hstart.2,
        (Option.some.inj h).symm⟩
    · cases h
  | next t input =>
    obtain ⟨tx, htx, h⟩ := Option.bind_eq_some_iff.mp h
    obtain ⟨e, he, h⟩ := Option.bind_eq_some_iff.mp h
    split at h
    · next hfree =>
      exact .inr (.inl ⟨t, input, tx, e, rfl, htx, he, hfree, (Option.some.inj h).symm⟩)
    · cases h
  | commit t =>
    obtain ⟨tx, htx, h⟩ := Option.bind_eq_some_iff.mp h
    split at h
    · next hends =>
      exact .inr (.inr (.inl ⟨t, tx, rfl, htx, hends, (Option.some.inj h).symm⟩))
    · cases h
  | abort t => exact .inr (.inr (.inr (.inl ⟨t, rfl, (Option.some.inj h).symm⟩)))
  | elapse => exact .inr (.inr (.inr (.inr ⟨rfl, (Option.some.inj h).symm⟩)))

/-- A transaction that is through commits as the whole of its writes. -/
theorem step_commit {tx : Tx S W L} (htx : s.txs.find? t = some tx) (hends : sys.ends tx.pc = true) :
    sys.step s (.commit t) = some (sys.commits s t tx) := by
  rw [System.step, htx]
  exact if_pos hends

theorem apart_of_free {e : Effect S W L} (h : sys.free s t e = true) {u : Nat} {ux : Tx S W L}
    (hu : s.txs.find? u = some ux) (hne : u ≠ t) :
    sys.apart (e.awaits ++ sys.kept e) ux.locks = true := by
  rw [System.free, Bool.not_eq_true'] at h
  have hnone := Table.any_eq_false.mp h u ux hu
  simpa [hne] using hnone

theorem Sound.put (h : Sound sys s) {tx : Tx S W L} (hcovers : sys.Covers tx)
    (hapart : ∀ u ux, s.txs.find? u = some ux → u ≠ t → sys.apart tx.locks ux.locks = true) :
    Sound sys { s with txs := s.txs.put t tx } where
  apart u ux v vx hu hv huv := by
    rcases Table.find?_of_put hu with ⟨hut, hux⟩ | ⟨hut, huo⟩ <;>
      rcases Table.find?_of_put hv with ⟨hvt, hvx⟩ | ⟨hvt, hvo⟩
    · exact absurd (hut.trans hvt.symm) huv
    · rw [hux]
      exact hapart v vx hvo hvt
    · rw [hvx]
      exact apart_comm (hapart u ux huo hut)
    · exact h.apart u ux v vx huo hvo huv
  covers u ux hu := by
    rcases Table.find?_of_put hu with ⟨rfl, rfl⟩ | ⟨-, hu⟩
    · exact hcovers
    · exact h.covers u ux hu

theorem Sound.erase (h : Sound sys s) (t : Nat) (db : D) (commits : Nat) :
    Sound sys ⟨db, s.txs.erase t, commits⟩ where
  apart u ux v vx hu hv :=
    h.apart u ux v vx (Table.find?_of_erase hu).2 (Table.find?_of_erase hv).2
  covers u ux hu := h.covers u ux (Table.find?_of_erase hu).2

theorem covers_advance {tx : Tx S W L} (h : sys.Covers tx) (e : Effect S W L) :
    sys.Covers ⟨e.next, tx.locks ++ sys.kept e, tx.log ++ e.writes⟩ := by
  intro w hw
  obtain hw | hw := List.mem_append.mp hw
  · exact List.mem_append_left _ (h w hw)
  · refine List.mem_append_right _ (List.mem_append_right _ ?_)
    exact List.mem_map_of_mem hw

/-- Every step keeps what each transaction reads and writes sound. -/
theorem Sound.step (h : Sound sys s) {a : Action S I} (hs : sys.step s a = some s') :
    Sound sys s' := by
  obtain ⟨t, pc, -, -, -, rfl⟩ | ⟨t, input, tx, e, -, htx, -, hfree, rfl⟩ | ⟨t, tx, -, -, -, rfl⟩ |
    ⟨t, -, rfl⟩ | ⟨-, rfl⟩ := step_cases hs
  · exact h.put (fun w hw => absurd hw List.not_mem_nil) fun u ux _ _ => rfl
  · refine h.put (covers_advance (h.covers t tx htx) e) fun u ux hu hne => ?_
    have hnew := apart_of_free hfree hu hne
    have hold := h.apart t tx u ux htx hu (Ne.symm hne)
    rw [apart_iff] at hnew hold ⊢
    intro l hl
    obtain hl | hl := List.mem_append.mp hl
    · exact hold l hl
    · exact hnew l (List.mem_append_right _ hl)
  · exact h.erase t _ _
  · exact h.erase t _ _
  · exact ⟨h.apart, h.covers⟩

end Steps

/-! ## Proof outlines -/

/-- What holds of the committed rows, what each transaction knows of them, and that no step of a
transaction takes it from the others. -/
structure Outline (sys : System D W K R L S I) (ok : State D S W L → Action S I → Prop)
    (G : Nat → D → Prop) (P : Nat → D → Tx S W L → Prop) : Prop where
  start : ∀ n d pc, G n d → sys.starts n d pc = true → P n d ⟨pc, [], []⟩
  next : ∀ n d tx input e, G n d → P n d tx → sys.Covers tx →
    sys.statement tx.pc n (sys.view tx.log d) input = some e →
    P n d ⟨e.next, tx.locks ++ sys.kept e, tx.log ++ e.writes⟩
  commit : ∀ s t tx, ok s (.commit t) → s.txs.find? t = some tx → sys.ends tx.pc = true →
    G s.commits s.db → P s.commits s.db tx → G (s.commits + 1) (sys.view tx.log s.db)
  other : ∀ s t tx u ux, ok s (.commit t) → s.txs.find? t = some tx → s.txs.find? u = some ux →
    t ≠ u → sys.ends tx.pc = true → sys.apart tx.locks ux.locks = true → sys.Covers tx →
    sys.Covers ux → G s.commits s.db → P s.commits s.db tx → P s.commits s.db ux →
    P (s.commits + 1) (sys.view tx.log s.db) ux
  elapse : ∀ n d, G n d → G n (sys.elapse d)
  elapses : ∀ n d tx, P n d tx → P n (sys.elapse d) tx

structure Outlined (sys : System D W K R L S I) (G : Nat → D → Prop)
    (P : Nat → D → Tx S W L → Prop) (s : State D S W L) : Prop where
  sound : Sound sys s
  rows : G s.commits s.db
  knows : ∀ t tx, s.txs.find? t = some tx → P s.commits s.db tx

variable {ok : State D S W L → Action S I → Prop} {G : Nat → D → Prop}
  {P : Nat → D → Tx S W L → Prop} {s s' : State D S W L}

/-- The step lemma: a step that is let through keeps every assertion. -/
theorem Outline.step (o : Outline sys ok G P) (h : Outlined sys G P s) {a : Action S I}
    (hok : ok s a) (hs : sys.step s a = some s') : Outlined sys G P s' := by
  have hsound := h.sound.step hs
  obtain ⟨t, pc, -, -, hstarts, rfl⟩ | ⟨t, input, tx, e, -, htx, he, -, rfl⟩ |
    ⟨t, tx, rfl, htx, hends, rfl⟩ | ⟨t, -, rfl⟩ | ⟨-, rfl⟩ := step_cases hs
  · refine ⟨hsound, h.rows, fun u ux hu => ?_⟩
    rcases Table.find?_of_put hu with ⟨-, rfl⟩ | ⟨-, hu⟩
    · exact o.start _ _ pc h.rows hstarts
    · exact h.knows u ux hu
  · refine ⟨hsound, h.rows, fun u ux hu => ?_⟩
    rcases Table.find?_of_put hu with ⟨-, rfl⟩ | ⟨-, hu⟩
    · exact o.next _ _ tx input e h.rows (h.knows t tx htx) (h.sound.covers t tx htx) he
    · exact h.knows u ux hu
  · refine ⟨hsound, o.commit s t tx hok htx hends h.rows (h.knows t tx htx), fun u ux hu => ?_⟩
    obtain ⟨hut, hu⟩ := Table.find?_of_erase hu
    exact o.other s t tx u ux hok htx hu (Ne.symm hut) hends
      (h.sound.apart t tx u ux htx hu (Ne.symm hut)) (h.sound.covers t tx htx)
      (h.sound.covers u ux hu) h.rows (h.knows t tx htx) (h.knows u ux hu)
  · exact ⟨hsound, h.rows, fun u ux hu => h.knows u ux (Table.find?_of_erase hu).2⟩
  · exact ⟨hsound, o.elapse _ _ h.rows, fun u ux hu => o.elapses _ _ ux (h.knows u ux hu)⟩

/-- The run lemma: the assertions hold in every state that is reached. -/
theorem Outline.invariant (o : Outline sys ok G P) {init : State D S W L → Prop}
    (h0 : ∀ s, init s → Outlined sys G P s) (hr : Reach init sys.step ok s) : Outlined sys G P s :=
  hr.invariant h0 fun _ _ _ h hok hs => o.step h hok hs

theorem outlined_start {s : State D S W L} (htxs : s.txs = Table.empty) (h : G s.commits s.db) :
    Outlined sys G P s := by
  obtain ⟨d, txs, n⟩ := s
  obtain rfl : txs = Table.empty := htxs
  exact ⟨⟨fun _ _ _ _ ht => (by cases ht), fun _ _ ht => (by cases ht)⟩, h,
    fun _ _ ht => (by cases ht)⟩

end FractalStudio.ReadCommitted
