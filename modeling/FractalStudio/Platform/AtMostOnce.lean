import FractalStudio.Platform.Idempotency

/-!
# The guarded work commits at most once

The claimant holds the lock until it ends, so there is one at a time. As long as no handler returns
with its claim, what it commits is completed; then a row that is seen says what was done, and a
fresh generation has done nothing yet.
-/
namespace FractalStudio.Platform.Idempotency

open Transition

variable {Body Hash Json : Type}

/-- The phases in which a transaction has the lock. -/
def Phase.holds : Phase Hash Json → Bool
  | .claimed _ _ => true
  | .working _ _ => true
  | .completed _ _ _ => true
  | .returning _ _ _ => true
  | .replaying _ _ => true
  | .refused (some _) _ => true
  | _ => false

/-- A generation that nobody has worked in, claimed for a body. -/
def Fresh [DecidableEq Hash] (cfg : Config Body Hash Json) (s : State Body Hash Json) (body : Body)
    (gen : Nat) (row : Record Hash Json) : Prop :=
  gen < s.generations ∧ s.workCount gen = 0 ∧ row.requestHash = cfg.requestHash body

/-- What the log says about a transaction with the lock. -/
def Fits [DecidableEq Hash] (cfg : Config Body Hash Json) (s : State Body Hash Json) (body : Body) :
    Phase Hash Json → Prop
  | .claimed gen row => Fresh cfg s body gen row
  | .working gen row => Fresh cfg s body gen row
  | .completed gen row response => Fresh cfg s body gen row ∧ row.status = .completed response
  | .returning _ _ _ => False
  | .dismissed gen _ => gen = none
  | .replaying gen response => .worked gen body response ∈ s.log
  | .refused (some gen) detail =>
    detail = "idempotency_conflict" ∧
      ∃ first response, .worked gen first response ∈ s.log ∧ body ≠ first
  | _ => True

variable [DecidableEq Hash] {cfg : Config Body Hash Json}

/-- What holds between the record of a key and its transactions. -/
structure Inv (cfg : Config Body Hash Json) (s : State Body Hash Json) : Prop where
  done : ∀ gen row, s.record = some (gen, row) → gen < s.generations ∧ ∃ body response,
    row.requestHash = cfg.requestHash body ∧ row.status = .completed response ∧
      .worked gen body response ∈ s.log
  holder : ∀ t tx, s.txs.find? t = some tx → tx.phase.holds = true → s.lockedBy = some t
  fits : ∀ t tx, s.txs.find? t = some tx → Fits cfg s tx.body tx.phase
  started : ∀ gen body response, .worked gen body response ∈ s.log → gen < s.generations
  once : ∀ gen, s.workCount gen ≤ 1
  answers : ∀ gen body answer, .answered gen body answer ∈ s.log →
    ∃ first response, .worked gen first response ∈ s.log ∧
      (body = first → answer = .replay response) ∧
      (body ≠ first → answer = .refusal "idempotency_conflict")

variable {s : State Body Hash Json}

theorem Inv.atMostOnce (h : Inv cfg s) : AtMostOnce s where
  completed := fun gen row hrow => by
    obtain ⟨-, body, response, -, hstatus, -⟩ := h.done gen row hrow
    exact ⟨response, hstatus⟩
  once := h.once
  answers := h.answers

theorem inv_initial (member pendingOrder missing : Bool) :
    Inv cfg (initial member pendingOrder missing : State Body Hash Json) where
  done := fun gen row h => by cases h
  holder := fun t tx h => by cases h
  fits := fun t tx h => by cases h
  started := fun gen body response h => by cases h
  once := fun gen => Nat.zero_le _
  answers := fun gen body answer h => by cases h

theorem Inv.workCount_fresh (h : Inv cfg s) :
    s.workCount s.generations = 0 := by
  refine List.countP_eq_zero.mpr fun event hevent hwork => ?_
  cases event with
  | worked gen body response =>
    have hgen : gen = s.generations := of_decide_eq_true hwork
    have hlt := h.started gen body response hevent
    omega
  | answered gen body answer => cases hwork

variable {body : Body} {phase : Phase Hash Json}

theorem fits_of_not_holds (h : phase.holds = false)
    (hnone : ∀ gen detail, phase = .dismissed gen detail → gen = none) :
    Fits cfg s body phase := by
  cases phase with
  | dismissed gen detail => exact hnone gen detail rfl
  | begun => trivial
  | conflicted => trivial
  | finished => trivial
  | refused gen detail =>
    cases gen with
    | none => trivial
    | some gen => cases h
  | _ => cases h

theorem Fits.mono {s' : State Body Hash Json} (h : Fits cfg s body phase) (hlog : s'.log = s.log)
    (hgen : s.generations ≤ s'.generations) :
    Fits cfg s' body phase := by
  have hfresh {gen : Nat} {row : Record Hash Json} (h : Fresh cfg s body gen row) :
      Fresh cfg s' body gen row := by
    obtain ⟨hlt, hcount, hhash⟩ := h
    refine ⟨by omega, ?_, hhash⟩
    rw [State.workCount, hlog]
    exact hcount
  cases phase with
  | claimed gen row => exact hfresh h
  | working gen row => exact hfresh h
  | completed gen row response => exact ⟨hfresh h.1, h.2⟩
  | returning gen row code => exact h
  | dismissed gen detail => exact h
  | replaying gen response =>
    show _ ∈ s'.log
    rw [hlog]
    exact h
  | refused gen detail =>
    cases gen with
    | none => trivial
    | some gen =>
      show _ ∧ ∃ first response, _ ∈ s'.log ∧ _
      rw [hlog]
      exact h
  | _ => trivial

variable {t : TxId} {tx : Tx Body Hash Json}

theorem Inv.setPhase {s' : State Body Hash Json} (hinv : Inv cfg s)
    (htx : s.txs.find? t = some tx)
    (htxs : s'.txs = s.txs.modify t fun tx => { tx with phase := phase })
    (hrecord : s'.record = s.record) (hlog : s'.log = s.log)
    (hgen : s.generations ≤ s'.generations)
    (hothers : ∀ u, u ≠ t → s.lockedBy = some u → s'.lockedBy = some u)
    (hholds : phase.holds = true → s'.lockedBy = some t) (hfits : Fits cfg s' tx.body phase) :
    Inv cfg s' := by
  have hfind {u : TxId} {ux : Tx Body Hash Json} (h : s'.txs.find? u = some ux) :
      (u = t ∧ ux = { tx with phase := phase }) ∨ (u ≠ t ∧ s.txs.find? u = some ux) := by
    rw [htxs] at h
    by_cases hu : u = t
    · subst hu
      rw [Table.find?_modify_self, htx] at h
      exact Or.inl ⟨rfl, (Option.some.inj h).symm⟩
    · rw [Table.find?_modify_ne _ _ hu] at h
      exact Or.inr ⟨hu, h⟩
  refine ⟨?_, ?_, ?_, ?_, ?_, ?_⟩
  · intro gen row hrow
    rw [hrecord] at hrow
    obtain ⟨hlt, hdone⟩ := hinv.done gen row hrow
    rw [hlog]
    exact ⟨by omega, hdone⟩
  · intro u ux hu hux
    obtain ⟨rfl, rfl⟩ | ⟨hne, hu⟩ := hfind hu
    · exact hholds hux
    · exact hothers u hne (hinv.holder u ux hu hux)
  · intro u ux hu
    obtain ⟨rfl, rfl⟩ | ⟨hne, hu⟩ := hfind hu
    · exact hfits
    · exact (hinv.fits u ux hu).mono hlog hgen
  · intro gen body response hmem
    rw [hlog] at hmem
    have hlt := hinv.started gen body response hmem
    omega
  · intro gen
    rw [State.workCount, hlog]
    exact hinv.once gen
  · intro gen body answer hmem
    rw [hlog] at hmem ⊢
    exact hinv.answers gen body answer hmem

theorem Inv.finish {s' : State Body Hash Json} (hinv : Inv cfg s) (htx : s.txs.find? t = some tx)
    (hholds : tx.phase.holds = true)
    (htxs : s'.txs = s.txs.modify t fun tx => { tx with phase := .finished })
    (hdone : ∀ gen row, s'.record = some (gen, row) → gen < s'.generations ∧ ∃ body response,
      row.requestHash = cfg.requestHash body ∧ row.status = .completed response ∧
        .worked gen body response ∈ s'.log)
    (hstarted : ∀ gen body response, .worked gen body response ∈ s'.log → gen < s'.generations)
    (honce : ∀ gen, s'.workCount gen ≤ 1)
    (hanswers : ∀ gen body answer, .answered gen body answer ∈ s'.log →
      ∃ first response, .worked gen first response ∈ s'.log ∧
        (body = first → answer = .replay response) ∧
        (body ≠ first → answer = .refusal "idempotency_conflict")) : Inv cfg s' := by
  have hnone {u : TxId} {ux : Tx Body Hash Json} (h : s'.txs.find? u = some ux) :
      ux.phase.holds = false := by
    rw [htxs] at h
    by_cases hu : u = t
    · subst hu
      rw [Table.find?_modify_self, htx] at h
      cases h
      rfl
    · rw [Table.find?_modify_ne _ _ hu] at h
      cases hux : ux.phase.holds with
      | false => rfl
      | true =>
        have hlock := hinv.holder u ux h hux
        rw [hinv.holder t tx htx hholds] at hlock
        exact absurd (Option.some.inj hlock).symm hu
  have hdismissed {u : TxId} {ux : Tx Body Hash Json} (h : s'.txs.find? u = some ux)
      (gen : Option Nat) (detail : String) (hphase : ux.phase = .dismissed gen detail) :
      gen = none := by
    rw [htxs] at h
    by_cases hu : u = t
    · subst hu
      rw [Table.find?_modify_self, htx] at h
      cases h
      cases hphase
    · rw [Table.find?_modify_ne _ _ hu] at h
      have hfits := hinv.fits u ux h
      rw [hphase] at hfits
      exact hfits
  refine ⟨hdone, fun u ux hu hux => ?_, fun u ux hu => fits_of_not_holds (hnone hu) (hdismissed hu),
    hstarted, honce, hanswers⟩
  rw [hnone hu] at hux
  cases hux

theorem Inv.rollback (hinv : Inv cfg s) (htx : s.txs.find? t = some tx) :
    Inv cfg ((s.setPhase t .finished).release t) := by
  refine hinv.setPhase htx rfl rfl rfl (Nat.le_refl _) (fun u hu hlock => ?_) (fun h => by cases h)
    trivial
  show (if s.lockedBy = some t then none else s.lockedBy) = some u
  rw [if_neg (by rw [hlock]; exact fun h => hu (Option.some.inj h)), hlock]

theorem Inv.answer {s' : State Body Hash Json} (hinv : Inv cfg s) (htx : s.txs.find? t = some tx)
    (hholds : tx.phase.holds = true) {gen : Nat} {answer : Answer Json}
    (hs' : s' = { (s.setPhase t .finished).release t with
      log := s.log ++ [.answered gen tx.body answer] })
    (hanswer : ∃ first response, .worked gen first response ∈ s.log ∧
      (tx.body = first → answer = .replay response) ∧
      (tx.body ≠ first → answer = .refusal "idempotency_conflict")) : Inv cfg s' := by
  subst hs'
  have hmem {event : Event Body Json} (h : event ∈ s.log) :
      event ∈ s.log ++ [.answered gen tx.body answer] := List.mem_append_left _ h
  refine hinv.finish htx hholds rfl (fun g row hrow => ?_) (fun g body response h => ?_)
    (fun g => ?_) fun g body ans h => ?_
  · obtain ⟨hlt, body, response, hhash, hstatus, hlog⟩ := hinv.done g row hrow
    exact ⟨hlt, body, response, hhash, hstatus, hmem hlog⟩
  · obtain h | h := List.mem_append.mp h
    · exact hinv.started g body response h
    · cases List.mem_singleton.mp h
  · rw [State.workCount, List.countP_append]
    exact hinv.once g
  · obtain h | h := List.mem_append.mp h
    · obtain ⟨first, response, hlog, hsame⟩ := hinv.answers g body ans h
      exact ⟨first, response, hmem hlog, hsame⟩
    · cases List.mem_singleton.mp h
      obtain ⟨first, response, hlog, hsame⟩ := hanswer
      exact ⟨first, response, hmem hlog, hsame⟩

omit [DecidableEq Hash] in
/-- A request begins, or is refused where there is nothing to replay. -/
theorem beginPhase_cases {now : Time} (hok : Straight cfg s (.begin t body now)) :
    beginPhase cfg s now = .begun ∨
      ∃ detail, beginPhase cfg s now = (.dismissed none detail : Phase Hash Json) := by
  rw [beginPhase.eq_def]
  split
  · next detail hhandler =>
    split
    · next hmissing =>
      rw [hok detail hhandler hmissing]
      exact .inr ⟨detail, rfl⟩
    · exact .inl rfl
  · exact .inl rfl

theorem inv_begin (hinv : Inv cfg s) {now : Time} {txs : Table TxId (Tx Body Hash Json)}
    (hok : Straight cfg s (.begin t body now))
    (h : s.txs.insert? t ⟨body, now, beginPhase cfg s now⟩ = some txs) :
    Inv cfg { s with txs := txs } := by
  have hfind {u : TxId} {ux : Tx Body Hash Json} (hu : txs.find? u = some ux) :
      (ux.phase.holds = false ∧ Fits cfg { s with txs := txs } ux.body ux.phase) ∨
        s.txs.find? u = some ux := by
    rw [Table.find?_insert h] at hu
    split at hu
    · cases hu
      left
      obtain hbegun | ⟨detail, hdismissed⟩ := beginPhase_cases hok
      · rw [hbegun]
        exact ⟨rfl, trivial⟩
      · rw [hdismissed]
        exact ⟨rfl, rfl⟩
    · exact Or.inr hu
  refine ⟨hinv.done, fun u ux hu hux => ?_, fun u ux hu => ?_, hinv.started, hinv.once,
    hinv.answers⟩
  · obtain ⟨hnot, -⟩ | hu := hfind hu
    · rw [hnot] at hux
      cases hux
    · exact hinv.holder u ux hu hux
  · obtain ⟨-, hfits⟩ | hu := hfind hu
    · exact hfits
    · exact (hinv.fits u ux hu).mono rfl (Nat.le_refl _)

theorem inv_insert {s' : State Body Hash Json} (hinv : Inv cfg s) (htx : s.txs.find? t = some tx)
    (h : insertStep cfg s t tx = some s') : Inv cfg s' := by
  rw [insertStep.eq_def] at h
  split at h
  · cases h
    exact hinv.setPhase htx rfl rfl rfl (Nat.le_refl _) (fun _ _ hlock => hlock)
      (fun h => by cases h) trivial
  · split at h
    · cases h
      exact hinv.setPhase htx rfl rfl rfl (Nat.le_refl _) (fun _ _ hlock => hlock)
        (fun h => by cases h) trivial
    · cases h
    · next hrecord hlock =>
      cases h
      refine hinv.setPhase htx rfl rfl rfl (Nat.le_succ _) (fun u _ hu => ?_) (fun _ => rfl)
        ⟨Nat.lt_succ_self _, hinv.workCount_fresh, rfl⟩
      rw [hlock] at hu
      cases hu

theorem fits_claimExisting {s' : State Body Hash Json} (hinv : Inv cfg s) {gen : Nat}
    {row : Record Hash Json} (hrecord : s.record = some (gen, row)) (hlog : s'.log = s.log)
    (hgen : s'.generations = s.generations + 1) :
    Fits cfg s' tx.body (claimExisting cfg tx s.generations gen row) := by
  obtain ⟨-, body, response, hhash, hstatus, hdone⟩ := hinv.done gen row hrecord
  rw [claimExisting.eq_def, hstatus]
  split
  · refine ⟨by omega, ?_, rfl⟩
    rw [State.workCount, hlog]
    exact hinv.workCount_fresh
  · rw [if_neg (by simp [RecordStatus.leaseExpired])]
    split
    · next hne =>
      refine ⟨rfl, body, response, by rw [hlog]; exact hdone, fun heq => hne ?_⟩
      rw [hhash, heq]
    · next heq =>
      have hbody : body = tx.body := by
        refine cfg.requestHash_injective ?_
        rw [← hhash]
        exact not_not.mp heq
      show _ ∈ s'.log
      rw [hlog, ← hbody]
      exact hdone

theorem inv_lock {s' : State Body Hash Json} (hinv : Inv cfg s) (htx : s.txs.find? t = some tx)
    (h : lockStep cfg s t tx = some s') : Inv cfg s' := by
  rw [lockStep.eq_def] at h
  split at h
  · cases h
  · next hfree =>
    split at h
    · cases h
      exact hinv.setPhase htx rfl rfl rfl (Nat.le_refl _) (fun _ _ hlock => hlock)
        (fun h => by cases h) trivial
    · next gen row hrecord =>
      cases h
      refine hinv.setPhase htx rfl rfl rfl (Nat.le_succ _) (fun u _ hu => ?_) (fun _ => rfl)
        (fits_claimExisting hinv hrecord rfl rfl)
      rw [hu] at hfree
      exact absurd rfl hfree

omit [DecidableEq Hash] in
theorem replayAnswer_eq {response : Response Json}
    (h : cfg.handler = .bodiless ∨ response.body.isSome = true) :
    replayAnswer cfg response = response := by
  rw [replayAnswer.eq_def]
  split
  · rfl
  · next hhandler =>
    obtain hbodiless | hbody := h
    · exact absurd hbodiless hhandler
    · obtain ⟨body, hbody⟩ := Option.isSome_iff_exists.mp hbody
      rw [hbody, Option.getD_some, ← hbody]

theorem inv_commit {s' : State Body Hash Json} (hinv : Inv cfg s) (htx : s.txs.find? t = some tx)
    (hok : Straight cfg s (.commit t)) (h : commitStep cfg s t tx = some s') : Inv cfg s' := by
  have hfits := hinv.fits t tx htx
  rw [commitStep.eq_def] at h
  split at h
  · next gen row response hphase =>
    cases h
    rw [hphase] at hfits
    obtain ⟨⟨hlt, hcount, hhash⟩, hstatus⟩ := hfits
    have hnew : .worked gen tx.body response ∈ s.log ++ [.worked gen tx.body response] :=
      List.mem_append_right _ (List.mem_singleton_self _)
    refine hinv.finish htx (by rw [hphase]; rfl) rfl (fun g r hrow => ?_)
      (fun g body resp h => ?_) (fun g => ?_) fun g body answer h => ?_
    · cases hrow
      exact ⟨hlt, tx.body, response, hhash, hstatus, hnew⟩
    · obtain h | h := List.mem_append.mp h
      · exact hinv.started g body resp h
      · cases List.mem_singleton.mp h
        exact hlt
    · have honce := hinv.once g
      rw [State.workCount] at honce hcount ⊢
      rw [List.countP_append, List.countP_singleton]
      by_cases hg : gen = g
      · subst hg
        rw [hcount, if_pos (by simp [Event.isWork])]
      · rw [if_neg (by simp [Event.isWork, hg])]
        omega
    · obtain h | h := List.mem_append.mp h
      · obtain ⟨first, resp, hlog, hsame⟩ := hinv.answers g body answer h
        exact ⟨first, resp, List.mem_append_left _ hlog, hsame⟩
      · cases List.mem_singleton.mp h
  · next gen row code hphase =>
    rw [hphase] at hfits
    exact hfits.elim
  · next gen response hphase =>
    rw [hphase] at hfits
    rw [replayAnswer_eq (hok tx gen response htx hphase)] at h
    refine hinv.answer htx (by rw [hphase]; rfl) (Option.some.inj h).symm
      ⟨tx.body, response, hfits, fun _ => rfl, fun hne => absurd rfl hne⟩
  · cases h

theorem inv_abort {s' : State Body Hash Json} (hinv : Inv cfg s) (htx : s.txs.find? t = some tx)
    (h : abortStep s t tx = some s') : Inv cfg s' := by
  have hfits := hinv.fits t tx htx
  rw [abortStep.eq_def] at h
  split at h
  · cases h
  · next gen detail hphase =>
    rw [hphase] at hfits
    obtain ⟨rfl, first, response, hdone, hne⟩ := hfits
    exact hinv.answer htx (by rw [hphase]; rfl) (Option.some.inj h).symm
      ⟨first, response, hdone, fun heq => absurd heq hne, fun _ => rfl⟩
  · next gen detail hphase =>
    rw [hphase] at hfits
    cases hfits
  · cases h
    exact hinv.rollback htx

/-- Every straight step keeps the invariant. -/
theorem inv_step {s' : State Body Hash Json} {a : Action Body Json} (hinv : Inv cfg s)
    (hok : Straight cfg s a) (h : step cfg s a = some s') : Inv cfg s' := by
  cases a with
  | begin t body now =>
    obtain ⟨txs, htxs, rfl⟩ := Option.map_eq_some_iff.mp h
    exact inv_begin hinv hok htxs
  | insertClaim t =>
    obtain ⟨tx, htx, h⟩ := Option.bind_eq_some_iff.mp h
    split at h
    · exact inv_insert hinv htx h
    · cases h
  | lock t =>
    obtain ⟨tx, htx, h⟩ := Option.bind_eq_some_iff.mp h
    split at h
    · exact inv_lock hinv htx h
    · cases h
  | check t =>
    obtain ⟨tx, htx, h⟩ := Option.bind_eq_some_iff.mp h
    split at h
    · next gen row hphase =>
      cases h
      have hcheck : checkPhase cfg s gen row = .working gen row := by
        rw [checkPhase.eq_def]
        split
        · next hhandler =>
          obtain ⟨hmember, hpending⟩ := hok hhandler
          simp [hmember, hpending]
        · rfl
      have hfits := hinv.fits t tx htx
      have hholder := hinv.holder t tx htx
      rw [hphase] at hfits hholder
      rw [hcheck]
      exact hinv.setPhase htx rfl rfl rfl (Nat.le_refl _) (fun _ _ hlock => hlock)
        (fun _ => hholder rfl) hfits
    · cases h
  | complete t response =>
    obtain ⟨tx, htx, h⟩ := Option.bind_eq_some_iff.mp h
    split at h
    · next gen row hphase =>
      cases h
      have hfits := hinv.fits t tx htx
      have hholder := hinv.holder t tx htx
      rw [hphase] at hfits hholder
      exact hinv.setPhase htx rfl rfl rfl (Nat.le_refl _) (fun _ _ hlock => hlock)
        (fun _ => hholder rfl) ⟨hfits, rfl⟩
    · cases h
  | commit t =>
    obtain ⟨tx, htx, h⟩ := Option.bind_eq_some_iff.mp h
    exact inv_commit hinv htx hok h
  | abort t =>
    obtain ⟨tx, htx, h⟩ := Option.bind_eq_some_iff.mp h
    exact inv_abort hinv htx h
  | deleteExpired now =>
    simp only [step] at h
    split at h
    · split at h
      · cases h
        exact ⟨(fun gen row hrow => by cases hrow), hinv.holder,
          fun u ux hu => (hinv.fits u ux hu).mono rfl (Nat.le_refl _), hinv.started, hinv.once,
          hinv.answers⟩
      · cases h
    · cases h
  | world member pendingOrder missing =>
    cases h
    exact ⟨hinv.done, hinv.holder, fun u ux hu => (hinv.fits u ux hu).mono rfl (Nat.le_refl _),
      hinv.started, hinv.once, hinv.answers⟩

/-- While no handler returns with its claim, none refuses a request ahead of a claim that would meet a
record, and no missing body is replayed as one, the work of a generation commits once at most, every
answer comes from it, and a claim that commits is completed. -/
theorem idempotency_at_most_once {s : State Body Hash Json}
    (hr : Reach IsInitial (step cfg) (Straight cfg) s) : AtMostOnce s := by
  have hinv : Inv cfg s := by
    refine hr.invariant (fun s hs => ?_) fun s a s' hinv hok h => inv_step hinv hok h
    obtain ⟨member, pendingOrder, missing, rfl⟩ := hs
    exact inv_initial member pendingOrder missing
  exact hinv.atMostOnce

/-! ## Runs of `membership_checkout` and `delete_conversation` -/

/-- The body of the price 2900, a lease of 30 and 86400 to the expiry. -/
def checkoutConfig : Config Nat Nat Nat :=
  ⟨0, "k", .membershipCheckout, 86400, 30, id, Function.injective_id⟩

def created : Response Nat := ⟨201, some 1, 0⟩

/-- A checkout that waits for another one replays its response; another body is a conflict. -/
def checkoutRun : List (Action Nat Nat) :=
  [.begin 1 2900 0, .insertClaim 1, .begin 2 2900 40, .begin 3 3900 50, .check 1,
    .complete 1 created, .commit 1, .insertClaim 2, .lock 2, .commit 2, .insertClaim 3, .lock 3,
    .abort 3]

/-- The user is neither a member nor about to pay, and what is replayed has a body. -/
def mayCheckOut (s : State Nat Nat Nat) : Action Nat Nat → Bool
  | .commit t => (s.txs.find? t).all fun tx =>
    match tx.phase with
    | .replaying _ response => response.body.isSome
    | _ => true
  | _ => !s.member && !s.pendingOrder

theorem straight_of_mayCheckOut {s : State Nat Nat Nat} {a : Action Nat Nat}
    (hok : mayCheckOut s a = true) : Straight checkoutConfig s a := by
  cases a with
  | begin t body now => exact fun detail hhandler => by cases hhandler
  | check t =>
    intro _
    simpa [mayCheckOut] using hok
  | commit t =>
    intro tx gen response htx hphase
    rw [mayCheckOut, htx, Option.all_some, hphase] at hok
    exact .inr hok
  | _ => trivial

/-- The same request is answered from the record, a changed one is refused. -/
theorem checkoutRun_at_most_once :
    ∃ s, exec (guarded (step checkoutConfig) mayCheckOut) (initial false false false) checkoutRun =
        some s ∧
      s.log = [.worked 0 2900 created, .answered 0 2900 (.replay created),
        .answered 0 3900 (.refusal "idempotency_conflict")] ∧ AtMostOnce s := by
  have hrun : (exec (guarded (step checkoutConfig) mayCheckOut) (initial false false false)
      checkoutRun).map (fun s => s.log) = some [.worked 0 2900 created,
        .answered 0 2900 (.replay created),
        .answered 0 3900 (.refusal "idempotency_conflict")] := rfl
  obtain ⟨s, hs, hlog⟩ := Option.map_eq_some_iff.mp hrun
  have hreach : Reach IsInitial (step checkoutConfig) (fun s a => mayCheckOut s a = true) s :=
    reach_of_guarded_exec ⟨false, false, false, rfl⟩ hs
  exact ⟨s, hs, hlog, idempotency_at_most_once (hreach.mono fun _ _ => straight_of_mayCheckOut)⟩

/-- A member's checkout commits its claim without a response; until the lease is over the same
request is told that it is in progress. -/
theorem early_return_leaves_claim :
    ¬ ∀ s : State Nat Nat Nat,
      Reach IsInitial (step checkoutConfig) Free s → AtMostOnce s := by
  intro h
  have hrun : (exec (step checkoutConfig) (initial true false false) [.begin 1 2900 0,
      .insertClaim 1, .check 1, .commit 1, .begin 2 2900 10, .insertClaim 2, .lock 2, .abort 2]).map
        (fun s : State Nat Nat Nat => (s.record, s.log)) =
      some (some (0, ⟨2900, .processing 30, 86400⟩),
        [.answered 0 2900 (.refusal "idempotency_in_progress")]) := rfl
  obtain ⟨s, hs, hstate⟩ := Option.map_eq_some_iff.mp hrun
  have hreach := h s (reach_of_exec ⟨true, false, false, rfl⟩ hs)
  obtain ⟨response, hresponse⟩ := hreach.completed 0 _ (congrArg Prod.fst hstate)
  cases hresponse

/-- The body and the key of a deletion of one conversation. -/
def deletionConfig : Config Nat Nat Nat :=
  { checkoutConfig with handler := .checksFirst "ai_conversation_not_found" }

/-- A conversation is deleted, and the same request is told that it does not exist. -/
example : (exec (step deletionConfig) (initial false false false) [.begin 1 5 0, .insertClaim 1,
      .check 1, .complete 1 ⟨204, none, 0⟩, .commit 1, .world false false true, .begin 2 5 10,
      .abort 2]).map (fun s : State Nat Nat Nat => s.log) =
    some [.worked 0 5 ⟨204, none, 0⟩, .answered 0 5 (.refusal "ai_conversation_not_found")] :=
  rfl

end FractalStudio.Platform.Idempotency
