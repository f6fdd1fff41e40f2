import FractalStudio.Finance.Ledger

/-!
# Manual payouts

The transactions of `ManualPayoutService`. A request moves money from available to
reserved; cancelling and rejecting move it back, paying consumes it. The replay of
a stored answer writes nothing and is left out.
-/
namespace FractalStudio.Finance

open Platform Txn

/-! ## `finance/repository.py` -/

def appendPayoutEntry (b : Books) (payoutRequestId creatorId : Uuid) (account : LedgerAccount)
    (signedAmount : Int) (entryType : EntryType) : Txn Failure Books := do
  let entry ← newEntry (some creatorId) none (some payoutRequestId) account signedAmount entryType
  require (b.ledger.all fun e => !(e.payoutRequestId = some payoutRequestId &&
    e.entryType = entryType)) (.integrity "uq_ledger_payout_request_type")
  return { b with ledger := b.ledger ++ [entry] }

def pendingRequest (creatorId : Uuid) (amount : Int) (minimum : 1 ≤ amount) : PayoutRequest where
  creatorId
  operatorUserId := none
  amount
  status := .pending
  externalReference := none
  rejectionReason := none
  minimum
  paidOperatorReference := by simp
  rejectedOperatorReason := by simp

def reserveAmount (b : Books) (creatorId : Uuid) (amount : Int) (minimum : 1 ≤ amount) :
    Option Books :=
  (b.balances.find? creatorId).bind fun balance =>
    if h : amount ≤ balance.availableAmount then
      some (setBalance b creatorId ⟨balance.availableAmount - amount,
        balance.reservedAmount + amount, by omega, by have := balance.reservedNonneg; omega⟩)
    else none

def reserveAndCreatePayout (b : Books) (creatorId : Uuid) (amount : Int) (minimum : 1 ≤ amount)
    (id : Uuid) : Txn Failure Books := do
  let b ← orFail (reserveAmount b creatorId amount minimum)
    (.http 409 "insufficient_creator_balance")
  require (b.payouts.select fun _ r => r.creatorId = creatorId && r.status = .pending).isEmpty
    (.http 409 "payout_request_pending")
  let payouts ← orFail (b.payouts.insert? id (pendingRequest creatorId amount minimum))
    (.http 409 "payout_request_pending")
  return { b with payouts }

def releaseOrConsumeReservation (b : Books) (request : PayoutRequest)
    (releaseToAvailable : Bool) : Option Books :=
  (b.balances.find? request.creatorId).bind fun balance =>
    if h : request.amount ≤ balance.reservedAmount then
      some (setBalance b request.creatorId
        ⟨balance.availableAmount + if releaseToAvailable then request.amount else 0,
          balance.reservedAmount - request.amount,
          by have := balance.availableNonneg; have := request.minimum; split <;> omega,
          by omega⟩)
    else none

/-- How a pending request ends. -/
inductive Ending where
  | cancelled
  | paid (operatorUserId : Uuid) (externalReference : String)
  | rejected (operatorUserId : Uuid) (rejectionReason : String)

def Ending.status : Ending → PayoutStatus
  | .cancelled => .cancelled
  | .paid _ _ => .paid
  | .rejected _ _ => .rejected

/-- The row `cancel_payout` or `settle_payout` writes. -/
def endRequest (request : PayoutRequest) : Ending → PayoutRequest
  | .cancelled => { request with
      status := .cancelled
      paidOperatorReference := by simp
      rejectedOperatorReason := by simp }
  | .paid operator reference => { request with
      status := .paid
      operatorUserId := some operator
      externalReference := some reference
      rejectionReason := none
      paidOperatorReference := by simp
      rejectedOperatorReason := by simp }
  | .rejected operator reason => { request with
      status := .rejected
      operatorUserId := some operator
      externalReference := none
      rejectionReason := some reason
      paidOperatorReference := by simp
      rejectedOperatorReason := by simp }

/-! ## `finance/manual_payout_service.py` -/

def createRequest (b : Books) (creatorId : Uuid) (amount : Int) (id : Uuid) : Txn Failure Books :=
  if minimum : 1 ≤ amount then do
    let b := lockCreatorBalance b creatorId
    let b ← reserveAndCreatePayout b creatorId amount minimum id
    appendPayoutEntry b id creatorId .creatorReserved amount .payoutReserved
  else .error (.http 422 "invalid_payout_amount")

/-- The part `cancel_request` and `_settle` share, on the locked request. -/
def endPending (b : Books) (id : Uuid) (current : PayoutRequest) (ending : Ending) :
    Txn Failure Books := do
  require (current.status = .pending) (.http 409 "invalid_payout_state")
  let b := lockCreatorBalance b current.creatorId
  let b := { b with payouts := b.payouts.modify id (endRequest · ending) }
  let b ← orFail (releaseOrConsumeReservation b current (ending.status ≠ .paid))
    (.invariant "payout_reservation_invariant")
  appendPayoutEntry b id current.creatorId .creatorReserved (-current.amount)
    (if ending.status = .paid then .payoutPaid else .payoutReleased)

def cancelRequest (b : Books) (principal id : Uuid) : Txn Failure Books := do
  let current ← orFail ((b.payouts.find? id).filter fun r => r.creatorId = principal)
    (.http 404 "payout_request_not_found")
  endPending b id current .cancelled

def markPaid (b : Books) (operator id : Uuid) (externalReference : String) : Txn Failure Books := do
  let current ← orFail (b.payouts.find? id) (.http 404 "payout_request_not_found")
  endPending b id current (.paid operator externalReference)

/-- `reject`, after `normalized_reason`. -/
def reject (b : Books) (operator id : Uuid) (reason : String) : Txn Failure Books := do
  let current ← orFail (b.payouts.find? id) (.http 404 "payout_request_not_found")
  endPending b id current (.rejected operator reason)

inductive PayoutCall where
  | createRequest (creator : Uuid) (amount : Int) (id : Uuid)
  | cancelRequest (principal id : Uuid)
  | markPaid (operator id : Uuid) (externalReference : String)
  | reject (operator id : Uuid) (reason : String)

def payout (b : Books) : PayoutCall → Txn Failure Books
  | .createRequest creator amount id => createRequest b creator amount id
  | .cancelRequest principal id => cancelRequest b principal id
  | .markPaid operator id reference => markPaid b operator id reference
  | .reject operator id reason => reject b operator id reason

/-! ## What the transactions do -/

theorem appendPayoutEntry_commits {b b' : Books} {id creator : Uuid} {account : LedgerAccount}
    {signedAmount : Int} {entryType : EntryType}
    (h : appendPayoutEntry b id creator account signedAmount entryType = .ok b') :
    ∃ e, row e = (some creator, none, some id, account, signedAmount, entryType) ∧
      b' = { b with ledger := b.ledger ++ [e] } := by
  obtain ⟨e, he, h⟩ := bind_commits.mp h
  obtain ⟨_, -, h⟩ := bind_commits.mp h
  exact ⟨e, (newEntry_commits he).2, (Except.ok.inj h).symm⟩

theorem reserveAmount_commits {b b' : Books} {k : Uuid} {amount : Int} {minimum : 1 ≤ amount}
    (h : reserveAmount b k amount minimum = some b') :
    Posted b b' [] k (-amount) amount ∧ b'.payouts = b.payouts := by
  obtain ⟨old, hold, h⟩ := Option.bind_eq_some_iff.mp h
  split at h
  · obtain rfl := Option.some.inj h
    have hposted := posted_setBalance hold
      ⟨old.availableAmount - amount, old.reservedAmount + amount, by omega,
        by have := old.reservedNonneg; omega⟩
    rw [sub_sub_cancel_left, add_sub_cancel_left] at hposted
    exact ⟨hposted, rfl⟩
  · cases h

theorem releaseOrConsumeReservation_commits {b b' : Books} {request : PayoutRequest}
    {release : Bool} (h : releaseOrConsumeReservation b request release = some b') :
    Posted b b' [] request.creatorId (if release then request.amount else 0) (-request.amount) ∧
      b'.payouts = b.payouts := by
  obtain ⟨old, hold, h⟩ := Option.bind_eq_some_iff.mp h
  split at h
  · next hle =>
    obtain rfl := Option.some.inj h
    have hposted := posted_setBalance hold
      ⟨old.availableAmount + if release then request.amount else 0,
        old.reservedAmount - request.amount,
        by have := old.availableNonneg; have := request.minimum; split <;> omega, by omega⟩
    rw [add_sub_cancel_left, sub_sub_cancel_left] at hposted
    exact ⟨hposted, rfl⟩
  · cases h

theorem createRequest_commits {b b' : Books} {creator id : Uuid} {amount : Int}
    (h : createRequest b creator amount id = .ok b') :
    ∃ (minimum : 1 ≤ amount) (e : LedgerEntry),
      row e = (some creator, none, some id, .creatorReserved, amount, .payoutReserved) ∧
      b.payouts.insert? id (pendingRequest creator amount minimum) = some b'.payouts ∧
      Posted b b' [e] creator (-amount) amount := by
  unfold createRequest at h
  split at h
  · next minimum =>
    obtain ⟨b₁, h₁, h⟩ := bind_commits.mp h
    obtain ⟨b₂, h₂, h₁⟩ := bind_commits.mp h₁
    obtain ⟨_, -, h₁⟩ := bind_commits.mp h₁
    obtain ⟨payouts, hins, h₁⟩ := bind_commits.mp h₁
    obtain rfl := Except.ok.inj h₁
    obtain ⟨e, hrow, rfl⟩ := appendPayoutEntry_commits h
    obtain ⟨hposted, hpayouts⟩ := reserveAmount_commits (orFail_eq_ok.mp h₂)
    rw [orFail_eq_ok, hpayouts] at hins
    refine ⟨minimum, e, hrow, hins, ?_⟩
    have hall := (posted_lockCreatorBalance b creator).trans
      (hposted.trans ((posted_payouts b₂ payouts creator).trans (posted_entry _ e creator)))
    simpa using hall
  · cases h

/-- A pending request ends: its reservation is released or consumed and recorded. -/
structure Ended (b b' : Books) (id : Uuid) (request : PayoutRequest) (ending : Ending) : Prop where
  found : b.payouts.find? id = some request
  pending : request.status = .pending
  payouts : b'.payouts = b.payouts.modify id (endRequest · ending)
  posted : ∃ e, row e = (some request.creatorId, none, some id, .creatorReserved, -request.amount,
      if ending.status = .paid then .payoutPaid else .payoutReleased) ∧
    Posted b b' [e] request.creatorId (if ending.status = .paid then 0 else request.amount)
      (-request.amount)

theorem endPending_commits {b b' : Books} {id : Uuid} {current : PayoutRequest} {ending : Ending}
    (hfound : b.payouts.find? id = some current)
    (h : endPending b id current ending = .ok b') : Ended b b' id current ending := by
  obtain ⟨_, hpending, h⟩ := bind_commits.mp h
  obtain ⟨b₁, h₁, h⟩ := bind_commits.mp h
  obtain ⟨e, hrow, rfl⟩ := appendPayoutEntry_commits h
  obtain ⟨hposted, hpayouts⟩ := releaseOrConsumeReservation_commits (orFail_eq_ok.mp h₁)
  rw [require_eq_ok, decide_eq_true_eq] at hpending
  refine ⟨hfound, hpending, hpayouts, e, hrow, ?_⟩
  have hall := (posted_lockCreatorBalance b current.creatorId).trans
    ((posted_payouts _ (b.payouts.modify id (endRequest · ending)) _).trans
      (hposted.trans (posted_entry b₁ e _)))
  by_cases hpaid : ending.status = .paid
  · simpa [hpaid] using hall
  · simpa [hpaid] using hall

theorem cancelRequest_commits {b b' : Books} {principal id : Uuid}
    (h : cancelRequest b principal id = .ok b') : ∃ request, Ended b b' id request .cancelled := by
  obtain ⟨current, hcurrent, h⟩ := bind_commits.mp h
  rw [orFail_eq_ok, Option.filter_eq_some_iff] at hcurrent
  exact ⟨current, endPending_commits hcurrent.1 h⟩

theorem markPaid_commits {b b' : Books} {operator id : Uuid} {reference : String}
    (h : markPaid b operator id reference = .ok b') :
    ∃ request, Ended b b' id request (.paid operator reference) := by
  obtain ⟨current, hcurrent, h⟩ := bind_commits.mp h
  exact ⟨current, endPending_commits (orFail_eq_ok.mp hcurrent) h⟩

theorem reject_commits {b b' : Books} {operator id : Uuid} {reason : String}
    (h : reject b operator id reason = .ok b') :
    ∃ request, Ended b b' id request (.rejected operator reason) := by
  obtain ⟨current, hcurrent, h⟩ := bind_commits.mp h
  exact ⟨current, endPending_commits (orFail_eq_ok.mp hcurrent) h⟩

end FractalStudio.Finance
