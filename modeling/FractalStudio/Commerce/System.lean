import FractalStudio.Commerce.Service
import FractalStudio.Lib.Transition

/-!
# The commerce system

Concurrent calls over one database. A checkout is taken statement by statement: it reads a snapshot,
then takes row locks, and its writes become visible at its commit. A handler locks its attempt and
order first, so its transaction is one step, enabled while no checkout holds either row. A handler
of several transactions keeps its program point between them.
-/
namespace FractalStudio.Commerce

open Platform Finance Txn

abbrev CallId := Nat

/-- Where a checkout transaction stands; the rows it holds come with the phase. -/
inductive CheckoutPhase where
  | started
  | notOwned
  | closingAttempts (orderIds : List Uuid)
  | attemptsClosed (attemptIds : List Uuid)
  | closingOrders (attemptIds orderIds : List Uuid)
  | ordersClosed (attemptIds orderIds : List Uuid)
  deriving DecidableEq

inductive MembershipPhase where
  | started
  | notMember
  | noPendingPayment
  deriving DecidableEq

/-- A call between two of its statements or transactions. -/
inductive Call where
  | checkout (buyerId : Uuid) (offer : PublishedOfferSnapshot) (expiresAt : Nat)
      (phase : CheckoutPhase)
  | membershipCheckout (userId : Uuid) (expiresAt : Nat) (phase : MembershipPhase)
  | recoveringNotification (fields : SignedFields)
  | querying (paymentAttemptId : Uuid) (snapshot : PaymentAttempt)
  | closingTrade (paymentAttemptId : Uuid)
  | reversing (paymentAttemptId : Uuid) (amount : Int)
  | recoveringReversal (paymentAttemptId : Uuid) (amount : Int)
  deriving DecidableEq

/-- `accepted` lists the attempts whose success notifications were acknowledged; no
transition reads it. -/
structure State where
  db : Db
  now : Nat
  calls : CallId → Option Call
  attemptLocks : Uuid → Option CallId
  orderLocks : Uuid → Option CallId
  accepted : List Uuid

inductive Action where
  | tick
  | checkout (c : CallId) (buyerId : Uuid) (offer : PublishedOfferSnapshot)
  | checkEntitlement (c : CallId)
  | readPendingOrders (c : CallId)
  | closeAttempts (c : CallId)
  | readOrders (c : CallId)
  | closeOrders (c : CallId)
  | commitCheckout (c : CallId) (outTradeNo : String) (orderId itemId attemptId : Uuid)
  | membershipCheckout (c : CallId) (userId : Uuid)
  | checkMember (c : CallId)
  | checkPendingPayment (c : CallId)
  | commitMembership (c : CallId) (outTradeNo : String) (orderId attemptId : Uuid)
  | abort (c : CallId)
  | notify (c : CallId) (fields : SignedFields)
  | recoverNotification (c : CallId)
  | reconcile (c : CallId) (paymentAttemptId : Uuid)
  | queried (c : CallId) (trade : AlipayTrade)
  | tradeClosed (c : CallId) (answer : Option AlipayTrade)
  | reverse (c : CallId)
  | recover (c : CallId)
  | deadLetter (paymentAttemptId : Uuid)
  | grantMembership (operator userId : Uuid)
  | payout (call : PayoutCall)

def State.put (s : State) (c : CallId) (call : Call) : State :=
  { s with calls := Function.update s.calls c (some call) }

def release (locks : Uuid → Option CallId) (c : CallId) : Uuid → Option CallId :=
  fun id => if locks id = some c then none else locks id

/-- End a call: its row locks go with its transaction. -/
def State.finish (s : State) (c : CallId) : State :=
  { s with
    calls := Function.update s.calls c none
    attemptLocks := release s.attemptLocks c
    orderLocks := release s.orderLocks c }

def State.withDb (s : State) (db : Db) : State := { s with db }

def acquire (locks : Uuid → Option CallId) (ids : List Uuid) (c : CallId) : Uuid → Option CallId :=
  fun id => if id ∈ ids then some c else locks id

def free (locks : Uuid → Option CallId) (ids : List Uuid) : Bool := ids.all fun id => locks id = none

/-- Whether a handler can lock its rows now. -/
def State.lockable (s : State) : Option LockedPaymentAttempt → Bool
  | none => true
  | some a => s.attemptLocks a.id = none && s.orderLocks a.orderId = none

/-- The statements of a checkout before its commit. -/
def checkoutStep (s : State) (c : CallId) (buyerId : Uuid) (offer : PublishedOfferSnapshot)
    (expiresAt : Nat) : CheckoutPhase → Action → Option State
  | .started, .checkEntitlement _ =>
    if hasActiveEntitlement s.db buyerId offer.assetId then some (s.finish c)
    else some (s.put c (.checkout buyerId offer expiresAt .notOwned))
  | .notOwned, .readPendingOrders _ =>
    some (s.put c (.checkout buyerId offer expiresAt
      (.closingAttempts (pendingOrdersForListing s.db buyerId offer.listingId))))
  | .closingAttempts orderIds, .closeAttempts _ =>
    let attemptIds := createdAttempts s.db orderIds
    if free s.attemptLocks attemptIds then
      some { s.put c (.checkout buyerId offer expiresAt (.attemptsClosed attemptIds)) with
        attemptLocks := acquire s.attemptLocks attemptIds c }
    else none
  | .attemptsClosed attemptIds, .readOrders _ =>
    some (s.put c (.checkout buyerId offer expiresAt
      (.closingOrders attemptIds ((ordersForListing s.db buyerId offer.listingId).map Prod.fst))))
  | .closingOrders attemptIds listed, .closeOrders _ =>
    let orderIds := pendingOrders s.db listed
    if free s.orderLocks orderIds then
      some { s.put c (.checkout buyerId offer expiresAt (.ordersClosed attemptIds orderIds)) with
        orderLocks := acquire s.orderLocks orderIds c }
    else none
  | _, _ => none

def membershipStep (s : State) (c : CallId) (userId : Uuid) (expiresAt : Nat) :
    MembershipPhase → Action → Option State
  | .started, .checkMember _ =>
    if isMember s.db userId then some (s.finish c)
    else some (s.put c (.membershipCheckout userId expiresAt .notMember))
  | .notMember, .checkPendingPayment _ =>
    if hasPendingMembershipPayment s.db userId then some (s.finish c)
    else some (s.put c (.membershipCheckout userId expiresAt .noPendingPayment))
  | _, _ => none

/-- The answer of `query_trade` and the transaction it leads to. -/
def queriedStep (s : State) (c : CallId) (paymentAttemptId : Uuid) (snapshot : PaymentAttempt)
    (trade : AlipayTrade) : Option State :=
  if trade.outTradeNo ≠ snapshot.outTradeNo || trade.totalAmount ≠ snapshot.amount then
    some (s.finish c)
  else if isPaid trade.tradeStatus then
    if s.lockable (lockAttemptById s.db paymentAttemptId) then
      match settleByAttempt s.db paymentAttemptId trade with
      | .ok db => some ((s.withDb db).finish c)
      | .error _ => some (s.finish c)
    else none
  else if trade.tradeStatus = .tradeClosed then
    if s.lockable (lockAttemptById s.db paymentAttemptId) then
      match closeQueried s.db paymentAttemptId trade with
      | .ok (some db) => some ((s.withDb db).finish c)
      | .ok none => some (s.put c (.reversing paymentAttemptId (refundOrTotal trade)))
      | .error _ => some (s.finish c)
    else none
  else if trade.tradeStatus = .waitBuyerPay && snapshot.expiresAt ≤ s.now then
    some (s.put c (.closingTrade paymentAttemptId))
  else some (s.finish c)

/-- A notification up to the end of its first transaction. -/
def notifyStep (s : State) (c : CallId) (fields : SignedFields) : Option State :=
  let target := lockAttemptByOutTradeNo s.db fields.trade.outTradeNo
  if s.calls c = none && s.lockable target then
    if fields.trade.tradeStatus = .tradeClosed then
      match closedNotification s.db fields with
      | .ok db => some (s.withDb db)
      | .error .insufficientCreatorBalance => some (s.put c (.recoveringNotification fields))
      | .error _ => none
    else
      match processNotification s.db fields with
      | .ok db => some { s.withDb db with
          accepted := if isPaid fields.trade.tradeStatus
            then (target.map LockedPaymentAttempt.id).toList ++ s.accepted else s.accepted }
      | .error _ => none
  else none

/-- A later transaction of a call: commit and end, or end with its failure. -/
def endWith (s : State) (c : CallId) : Txn Failure Db → State
  | .ok db => (s.withDb db).finish c
  | .error _ => s.finish c

/-- The steps of a call that is under way. -/
def advance (settings : Settings) (s : State) (c : CallId) : Call → Action → Option State
  | .checkout buyerId offer expiresAt (.ordersClosed attemptIds orderIds),
      .commitCheckout _ outTradeNo orderId itemId attemptId =>
    match placeOrder settings s.db buyerId offer attemptIds orderIds outTradeNo expiresAt orderId
        itemId attemptId with
    | .ok db => some ((s.withDb db).finish c)
    | .error _ => none
  | .checkout buyerId offer expiresAt phase, a => checkoutStep s c buyerId offer expiresAt phase a
  | .membershipCheckout userId expiresAt .noPendingPayment,
      .commitMembership _ outTradeNo orderId attemptId =>
    match createMembershipOrder s.db userId outTradeNo expiresAt orderId attemptId with
    | .ok db => some ((s.withDb db).finish c)
    | .error _ => none
  | .membershipCheckout userId expiresAt phase, a => membershipStep s c userId expiresAt phase a
  | .recoveringNotification fields, .recoverNotification _ =>
    if s.lockable (lockAttemptByOutTradeNo s.db fields.trade.outTradeNo) then
      some (endWith s c (recoverClosedNotification s.db fields))
    else none
  | .querying paymentAttemptId snapshot, .queried _ trade =>
    queriedStep s c paymentAttemptId snapshot trade
  | .closingTrade paymentAttemptId, .tradeClosed _ answer =>
    if answer.any fun trade => trade.tradeStatus = .tradeClosed then
      if s.lockable (lockAttemptById s.db paymentAttemptId) then
        some ((s.withDb (closeExpired s.db paymentAttemptId)).finish c)
      else none
    else some (s.finish c)
  | .reversing paymentAttemptId amount, .reverse _ =>
    if s.lockable (lockAttemptById s.db paymentAttemptId) then
      match reversePaid s.db paymentAttemptId amount with
      | .error .insufficientCreatorBalance =>
        some (s.put c (.recoveringReversal paymentAttemptId amount))
      | result => some (endWith s c result)
    else none
  | .recoveringReversal paymentAttemptId amount, .recover _ =>
    if s.lockable (lockAttemptById s.db paymentAttemptId) then
      some (endWith s c (recoverReversal s.db paymentAttemptId amount))
    else none
  | _, _ => none

/-- The call an action belongs to, for the actions of a call under way. -/
def Action.call? : Action → Option CallId
  | .checkEntitlement c | .readPendingOrders c | .closeAttempts c | .readOrders c | .closeOrders c
  | .commitCheckout c _ _ _ _ | .checkMember c | .checkPendingPayment c
  | .commitMembership c _ _ _ | .recoverNotification c | .queried c _ | .tradeClosed c _
  | .reverse c | .recover c => some c
  | _ => none

def step (settings : Settings) (s : State) (a : Action) : Option State :=
  match a with
  | .tick => some { s with now := s.now + 1 }
  | .checkout c buyerId offer =>
    if s.calls c = none && offerValid settings offer then
      some (s.put c (.checkout buyerId offer (s.now + settings.paymentAttemptTtl) .started))
    else none
  | .membershipCheckout c userId =>
    if s.calls c = none then
      some (s.put c (.membershipCheckout userId (s.now + settings.paymentAttemptTtl) .started))
    else none
  | .abort c => some (s.finish c)
  | .notify c fields => notifyStep s c fields
  | .reconcile c paymentAttemptId =>
    if s.calls c = none then
      (findAttemptForReconciliation s.db paymentAttemptId).map fun snapshot =>
        s.put c (.querying paymentAttemptId snapshot)
    else none
  | .deadLetter paymentAttemptId =>
    if s.lockable (lockAttemptById s.db paymentAttemptId) then
      some (s.withDb (markPaymentException s.db paymentAttemptId))
    else none
  | .grantMembership operator userId => some (s.withDb (grantMembership s.db operator userId))
  | .payout call =>
    match payout s.db.books call with
    | .ok books => some (s.withDb { s.db with books })
    | .error _ => none
  | a => a.call?.bind fun c => (s.calls c).bind fun call => advance settings s c call a

def emptyState : State := ⟨.empty, 0, fun _ => none, fun _ => none, fun _ => none, []⟩

def init (s : State) : Prop := s = emptyState

/-! ## A shop to run -/

def shop : Settings := ⟨100000000, 2000, "mvp-v1", 30⟩

/-- A listing at ten yuan. -/
def poster : PublishedOfferSnapshot := ⟨5, 6, 7, 1000, "CNY"⟩

/-- A whole checkout, undisturbed. -/
def purchase (c : CallId) (buyerId : Uuid) (offer : PublishedOfferSnapshot) (outTradeNo : String)
    (orderId itemId attemptId : Uuid) : List Action :=
  [.checkout c buyerId offer, .checkEntitlement c, .readPendingOrders c, .closeAttempts c,
    .readOrders c, .closeOrders c, .commitCheckout c outTradeNo orderId itemId attemptId]

def success (outTradeNo tradeNo : String) : SignedFields :=
  ⟨⟨outTradeNo, tradeNo, .tradeSuccess, 1000, none⟩, "TRADE_SUCCESS" ++ outTradeNo⟩

def closure (outTradeNo tradeNo : String) (refundAmount : Option Int) : SignedFields :=
  ⟨⟨outTradeNo, tradeNo, .tradeClosed, 1000, refundAmount⟩,
    (if refundAmount.isNone then "TRADE_CLOSED" else "TRADE_CLOSED refund") ++ outTradeNo⟩

end FractalStudio.Commerce
