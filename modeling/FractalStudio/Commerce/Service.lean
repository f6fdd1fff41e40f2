import FractalStudio.Commerce.Repository
import FractalStudio.Commerce.Split

/-!
# The transactions of the commerce service

`CheckoutService` up to its transaction, and each transaction of `CommerceService`
from its row locks to its commit. The signature, the merchant and the shape of a
notification are checked before any of them and touch no table.
-/
namespace FractalStudio.Commerce

open Platform Finance Txn

structure Settings where
  alipayMaxTotalAmount : Int
  platformFeeBps : Nat
  commissionPolicyVersion : String
  paymentAttemptTtl : Nat
  deriving DecidableEq

/-- The checks of `checkout` on the published offer. -/
def offerValid (settings : Settings) (offer : PublishedOfferSnapshot) : Bool :=
  offer.currency = "CNY" && 1 ≤ offer.price && offer.price ≤ settings.alipayMaxTotalAmount

/-- The writes of a checkout transaction: the rows it locked are closed and the new
order is created with the split of its price. -/
def placeOrder (settings : Settings) (db : Db) (buyerId : Uuid) (offer : PublishedOfferSnapshot)
    (attemptIds orderIds : List Uuid) (outTradeNo : String) (expiresAt : Nat)
    (orderId itemId attemptId : Uuid) : Txn Failure Db :=
  let amounts := split settings.platformFeeBps offer.price
  createPendingOrder (closeListed db attemptIds orderIds) buyerId offer
    settings.commissionPolicyVersion amounts.1 amounts.2 outTradeNo expiresAt orderId itemId attemptId

def isPaid : TradeStatus → Bool
  | .tradeSuccess | .tradeFinished => true
  | _ => false

def refundOrTotal (trade : AlipayTrade) : Int :=
  match trade.refundAmount with
  | some refund => if refund = 0 then trade.totalAmount else refund
  | none => trade.totalAmount

def validateTrade (trade : AlipayTrade) (a : LockedPaymentAttempt) : Txn Failure Unit :=
  require (trade.outTradeNo = a.outTradeNo && trade.totalAmount = a.amount)
    (.http 409 "alipay_payment_mismatch")

def recordSales (items : Table Uuid OrderItem) : Books → List (Uuid × OrderItem) → Txn Failure Books :=
  each fun b i => recordSale items b i.1

def reverseSales (items : Table Uuid OrderItem) : Books → List (Uuid × OrderItem) → Txn Failure Books :=
  each fun b i => reverseSale items b i.1

/-- What `_settle_locked` does once `mark_settled` returned `True`. -/
def settlePaid (db : Db) (a : LockedPaymentAttempt) : Txn Failure Db := do
  let db := grantEntitlements db a.buyerId a.items
  let books ← recordSales db.items db.books a.items
  let db := { db with books }
  return if (db.membershipOrders.find? a.orderId).isSome then activateMembership db a.buyerId else db

def settleLocked (db : Db) (a : LockedPaymentAttempt) (trade : AlipayTrade) : Txn Failure Db := do
  require (a.alipayTradeNo.all fun tradeNo => tradeNo = trade.tradeNo)
    (.http 409 "alipay_trade_mismatch")
  match ← markSettled db a trade.tradeNo with
  | none => return db
  | some db => settlePaid db a

def settleByAttempt (db : Db) (paymentAttemptId : Uuid) (trade : AlipayTrade) : Txn Failure Db :=
  match lockAttemptById db paymentAttemptId with
  | none => return db
  | some a => do
    validateTrade trade a
    settleLocked db a trade

/-- How the three transactions of a notification begin; a recorded fingerprint ends them. -/
def recordNotification (db : Db) (fields : SignedFields)
    (handle : Db → LockedPaymentAttempt → Txn Failure Db) : Txn Failure Db := do
  let a ← orFail (lockAttemptByOutTradeNo db fields.trade.outTradeNo)
    (.http 404 "payment_attempt_not_found")
  validateTrade fields.trade a
  match insertPaymentNotification db a.id fields with
  | none => return db
  | some db => handle db a

def processNotification (db : Db) (fields : SignedFields) : Txn Failure Db :=
  recordNotification db fields fun db a =>
    if isPaid fields.trade.tradeStatus then settleLocked db a fields.trade else return db

/-- The reversal in full that both closure handlers end in. -/
def reverseInFull (db : Db) (a : LockedPaymentAttempt) : Txn Failure Db := do
  let books ← reverseSales db.items db.books a.items
  return applyReversal { db with books } a

/-- What `_process_closed_notification` does with a recorded closure. -/
def notifiedClosure (trade : AlipayTrade) (db : Db) (a : LockedPaymentAttempt) : Txn Failure Db :=
  if a.orderStatus = .pendingPayment then return (closeUnpaid db a).getD db
  else if a.orderStatus ≠ .fulfilled then return db
  else do
    let (db, reversal) ← createOrGetReversal db a (refundOrTotal trade)
    if reversal.status ≠ .detected then return db
    else if reversal.amount ≠ a.orderAmount then
      return markReversalManualReview db a.id a.orderId false
    else reverseInFull db a

/-- The first transaction of `_process_closed_notification`. -/
def closedNotification (db : Db) (fields : SignedFields) : Txn Failure Db :=
  recordNotification db fields (notifiedClosure fields.trade)

/-- The manual review both closure handlers recover with. -/
def reviewInstead (db : Db) (a : LockedPaymentAttempt) (amount : Int) : Txn Failure Db := do
  let (db, _) ← createOrGetReversal db a amount
  return markReversalManualReview db a.id a.orderId false

def recoverClosedNotification (db : Db) (fields : SignedFields) : Txn Failure Db :=
  recordNotification db fields fun db a => reviewInstead db a (refundOrTotal fields.trade)

/-- The transaction of `reconcile_pending_payment` on a closed trade; `none` when it
writes nothing and `_reverse_paid` follows. -/
def closeQueried (db : Db) (paymentAttemptId : Uuid) (trade : AlipayTrade) :
    Txn Failure (Option Db) :=
  match lockAttemptById db paymentAttemptId with
  | none => return some db
  | some a => do
    validateTrade trade a
    if a.orderStatus = .pendingPayment then return some ((closeUnpaid db a).getD db)
    else return none

def reverseLocked (db : Db) (a : LockedPaymentAttempt) (amount : Int) : Txn Failure Db :=
  if a.orderStatus ≠ .fulfilled then return db
  else do
    let (db, reversal) ← createOrGetReversal db a amount
    if reversal.status = .applied || reversal.status = .manualReview then return db
    else if amount ≠ a.orderAmount then
      return markReversalManualReview db a.id a.orderId true
    else reverseInFull db a

/-- The first transaction of `_reverse_paid`. -/
def reversePaid (db : Db) (paymentAttemptId : Uuid) (amount : Int) : Txn Failure Db :=
  match lockAttemptById db paymentAttemptId with
  | none => return db
  | some a => reverseLocked db a amount

/-- The transaction `_reverse_paid` recovers with. -/
def recoverReversal (db : Db) (paymentAttemptId : Uuid) (amount : Int) : Txn Failure Db :=
  match lockAttemptById db paymentAttemptId with
  | none => return db
  | some a => reviewInstead db a amount

/-- The transaction after `close_trade` closed an expired trade. -/
def closeExpired (db : Db) (paymentAttemptId : Uuid) : Db :=
  ((lockAttemptById db paymentAttemptId).bind (closeUnpaid db)).getD db

end FractalStudio.Commerce
