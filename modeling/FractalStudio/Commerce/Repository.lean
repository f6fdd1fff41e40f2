import FractalStudio.Finance.Payout
import Mathlib.Data.List.Sort

/-!
# Checkout and payment persistence

The statements of `commerce/repository.py` and of the membership router, each as a
function of the database the transaction sees. Where a statement can break a
constraint it is a `Txn`; where the source returns whether it wrote, it is an `Option`.
-/
namespace FractalStudio.Commerce

open Platform Finance Txn

structure PublishedOfferSnapshot where
  listingId : Uuid
  assetId : Uuid
  creatorId : Uuid
  price : Int
  currency : String
  deriving DecidableEq

/-- An attempt and its order as the row locks return them, with the order's items. -/
structure LockedPaymentAttempt where
  id : Uuid
  orderId : Uuid
  buyerId : Uuid
  outTradeNo : String
  alipayTradeNo : Option String
  status : AttemptStatus
  amount : Int
  orderStatus : OrderStatus
  orderAmount : Int
  items : List (Uuid × OrderItem)

/-! ## Constraints of the inserts -/

def newOrder (buyerId : Uuid) (amount : Int) : Txn Failure Order :=
  if minimum : 1 ≤ amount then .ok ⟨buyerId, .pendingPayment, amount, minimum⟩
  else .error (.integrity "ck_orders_amount_minimum")

def newItem (orderId : Uuid) (offer : PublishedOfferSnapshot) (commissionPolicyVersion : String)
    (creatorAmount platformFeeAmount : Int) : Txn Failure OrderItem :=
  if minimum : 1 ≤ offer.price then
    if creatorNonneg : 0 ≤ creatorAmount then
      if feeNonneg : 0 ≤ platformFeeAmount then
        if split : creatorAmount + platformFeeAmount = offer.price then
          .ok ⟨orderId, offer.listingId, offer.assetId, offer.creatorId, offer.price,
            commissionPolicyVersion, creatorAmount, platformFeeAmount, minimum, creatorNonneg,
            feeNonneg, split⟩
        else .error (.integrity "ck_order_items_split_matches_price")
      else .error (.integrity "ck_order_items_fee_nonnegative")
    else .error (.integrity "ck_order_items_creator_nonnegative")
  else .error (.integrity "ck_order_items_price_minimum")

def newAttempt (orderId : Uuid) (outTradeNo : String) (amount : Int) (expiresAt : Nat) :
    Txn Failure PaymentAttempt :=
  if minimum : 1 ≤ amount then .ok ⟨orderId, outTradeNo, none, .created, amount, expiresAt, minimum⟩
  else .error (.integrity "ck_payment_attempts_amount_minimum")

/-- Insert an attempt, under the unique constraints on the order and the trade number. -/
def insertAttempt (attempts : Table Uuid PaymentAttempt) (id orderId : Uuid) (outTradeNo : String)
    (amount : Int) (expiresAt : Nat) : Txn Failure (Table Uuid PaymentAttempt) := do
  let attempt ← newAttempt orderId outTradeNo amount expiresAt
  require (attempts.select fun _ p => p.orderId = orderId).isEmpty
    (.integrity "uq_payment_attempts_order")
  require (attempts.select fun _ p => p.outTradeNo = outTradeNo).isEmpty
    (.integrity "uq_payment_attempts_out_trade_no")
  orFail (attempts.insert? id attempt) (.integrity "payment_attempts_pkey")

def maxAmount : Int := 10 ^ 18

/-- The bounds of a reversal amount: the `CHECK` and the range of `NUMERIC(18, 2)`. -/
def reversalAmountOk (amount : Int) : Bool := 1 ≤ amount && amount < maxAmount

def newReversal (orderId : Uuid) (amount : Int) : Txn Failure Reversal :=
  if minimum : 1 ≤ amount then
    if amount < maxAmount then .ok ⟨orderId, amount, .detected, minimum⟩
    else .error (.integrity "numeric_value_out_of_range")
  else .error (.integrity "ck_refund_reversals_amount_minimum")

/-! ## Checkout -/

/-- `create_pending_order`; the identifiers are the `uuid4()` values it draws. -/
def createPendingOrder (db : Db) (buyerId : Uuid) (offer : PublishedOfferSnapshot)
    (commissionPolicyVersion : String) (creatorAmount platformFeeAmount : Int)
    (outTradeNo : String) (expiresAt : Nat) (orderId itemId attemptId : Uuid) :
    Txn Failure Db := do
  let order ← newOrder buyerId offer.price
  let orders ← orFail (db.orders.insert? orderId order) (.integrity "orders_pkey")
  let item ← newItem orderId offer commissionPolicyVersion creatorAmount platformFeeAmount
  let items ← orFail (db.items.insert? itemId item) (.integrity "order_items_pkey")
  let attempts ← insertAttempt db.attempts attemptId orderId outTradeNo offer.price expiresAt
  return { db with orders, items, attempts }

def hasActiveEntitlement (db : Db) (buyerId assetId : Uuid) : Bool :=
  db.entitlements.any fun e => e.userId = buyerId && e.assetId = assetId && e.status = .active

def ordersForListing (db : Db) (buyerId listingId : Uuid) : List (Uuid × Order) :=
  db.orders.select fun id o => o.buyerId = buyerId &&
    !(db.items.select fun _ i => i.orderId = id && i.listingId = listingId).isEmpty

/-- The subquery of the first statement of `close_pending_orders_for_listing`. -/
def pendingOrdersForListing (db : Db) (buyerId listingId : Uuid) : List Uuid :=
  ((ordersForListing db buyerId listingId).filter fun r => r.2.status = .pendingPayment).map Prod.fst

/-- The attempts its first statement updates. -/
def createdAttempts (db : Db) (orderIds : List Uuid) : List Uuid :=
  (db.attempts.select fun _ p => orderIds.contains p.orderId && p.status = .created).map Prod.fst

/-- The orders its second statement updates. -/
def pendingOrders (db : Db) (orderIds : List Uuid) : List Uuid :=
  (db.orders.select fun id o => orderIds.contains id && o.status = .pendingPayment).map Prod.fst

/-- What `close_pending_orders_for_listing` writes to the rows it locked. -/
def closeListed (db : Db) (attemptIds orderIds : List Uuid) : Db where
  orders := db.orders.updateWhere (fun id _ => orderIds.contains id)
    fun _ o => { o with status := .closed }
  items := db.items
  attempts := db.attempts.updateWhere (fun id _ => attemptIds.contains id)
    fun _ p => { p with status := .closed }
  notifications := db.notifications
  reversals := db.reversals
  entitlements := db.entitlements
  books := db.books
  memberships := db.memberships
  membershipOrders := db.membershipOrders

/-! ## Row locks -/

/-- The items of an order, `ORDER BY oi.id`. -/
def orderItems (db : Db) (orderId : Uuid) : List (Uuid × OrderItem) :=
  (db.items.select fun _ i => i.orderId = orderId).insertionSort fun a b => a.1 ≤ b.1

def lockedAttempt (db : Db) (id : Uuid) (p : PaymentAttempt) : Option LockedPaymentAttempt :=
  (db.orders.find? p.orderId).map fun o =>
    ⟨id, p.orderId, o.buyerId, p.outTradeNo, p.alipayTradeNo, p.status, p.amount, o.status, o.amount,
      orderItems db p.orderId⟩

def lockAttemptById (db : Db) (id : Uuid) : Option LockedPaymentAttempt :=
  (db.attempts.find? id).bind (lockedAttempt db id)

def lockAttemptByOutTradeNo (db : Db) (outTradeNo : String) : Option LockedPaymentAttempt :=
  (db.attempts.select fun _ p => p.outTradeNo = outTradeNo).head?.bind fun r =>
    lockedAttempt db r.1 r.2

def findAttemptForReconciliation (db : Db) (id : Uuid) : Option PaymentAttempt :=
  (db.attempts.find? id).bind fun p =>
    (db.orders.find? p.orderId).bind fun o =>
      if (p.status = .created || p.status = .pending || p.status = .succeeded) &&
          (o.status = .pendingPayment || o.status = .fulfilled) then some p
      else none

/-! ## Settlement -/

/-- `insert_payment_notification`: `none` when the fingerprint is there already. -/
def insertPaymentNotification (db : Db) (paymentAttemptId : Uuid) (fields : SignedFields) :
    Option Db :=
  (db.notifications.insert? fields.canonical ⟨paymentAttemptId, fields.trade.tradeStatus⟩).map
    fun notifications => { db with notifications }

def setOrderStatus (db : Db) (id : Uuid) (status : OrderStatus) : Db :=
  { db with orders := db.orders.modify id fun o => { o with status } }

def setAttemptStatus (db : Db) (id : Uuid) (status : AttemptStatus) : Db :=
  { db with attempts := db.attempts.modify id fun p => { p with status } }

def unpaid (a : LockedPaymentAttempt) : Bool :=
  (a.status = .created || a.status = .pending) && a.orderStatus = .pendingPayment

/-- The two updates of `mark_settled`. -/
def settleRows (db : Db) (a : LockedPaymentAttempt) (alipayTradeNo : String) : Db :=
  setOrderStatus { db with attempts := db.attempts.modify a.id fun p =>
    { p with status := .succeeded, alipayTradeNo := some alipayTradeNo } } a.orderId .fulfilled

def markSettled (db : Db) (a : LockedPaymentAttempt) (alipayTradeNo : String) :
    Txn Failure (Option Db) := do
  if a.status = .succeeded && a.orderStatus = .fulfilled then
    return none
  if !unpaid a then
    return none
  require (db.attempts.select fun id p => id ≠ a.id && p.alipayTradeNo = some alipayTradeNo).isEmpty
    (.integrity "uq_payment_attempts_alipay_trade_no")
  return some (settleRows db a alipayTradeNo)

/-- One insert of `grant_entitlements`, `ON CONFLICT (order_item_id) DO NOTHING`. -/
def grantEntitlement (buyerId : Uuid) (entitlements : List Entitlement) (item : Uuid × OrderItem) :
    List Entitlement :=
  if entitlements.any fun e => e.orderItemId = item.1 then entitlements
  else entitlements ++ [⟨buyerId, item.2.assetId, item.1, .active⟩]

def grantEntitlements (db : Db) (buyerId : Uuid) (items : List (Uuid × OrderItem)) : Db :=
  { db with entitlements := items.foldl (grantEntitlement buyerId) db.entitlements }

/-- `close_unpaid`: `none` when it returns `False`. -/
def closeUnpaid (db : Db) (a : LockedPaymentAttempt) : Option Db :=
  if unpaid a then some (setOrderStatus (setAttemptStatus db a.id .closed) a.orderId .closed)
  else none

/-- The statement that activates a membership in `_settle_locked`. -/
def activateMembership (db : Db) (userId : Uuid) : Db :=
  { db with memberships :=
      db.memberships.upsert userId ⟨.active, none⟩ fun m => { m with status := .active } }

/-! ## Reversal -/

/-- `create_or_get_reversal`. PostgreSQL checks the row before the conflict clause. -/
def createOrGetReversal (db : Db) (a : LockedPaymentAttempt) (amount : Int) :
    Txn Failure (Db × Reversal) := do
  let reversal ← newReversal a.orderId amount
  return ({ db with reversals := db.reversals.insertIfAbsent a.id reversal },
    (db.reversals.find? a.id).getD reversal)

def setReversalStatus (db : Db) (attemptId : Uuid) (status : ReversalStatus) : Db :=
  { db with reversals := db.reversals.modify attemptId fun r =>
      if r.status = .detected then { r with status } else r }

def revokeEntitlements (db : Db) (orderItemIds : List Uuid) : Db :=
  { db with entitlements := db.entitlements.map fun e =>
      if orderItemIds.contains e.orderItemId then { e with status := .revoked } else e }

def markReversalManualReview (db : Db) (attemptId orderId : Uuid) (revoke : Bool) : Db :=
  let db := setReversalStatus db attemptId .manualReview
  let db := if revoke then revokeEntitlements db ((orderItems db orderId).map Prod.fst) else db
  setOrderStatus db orderId .paymentException

def applyReversal (db : Db) (a : LockedPaymentAttempt) : Db :=
  let db := revokeEntitlements db (a.items.map Prod.fst)
  let db := setAttemptStatus db a.id .failed
  let db := setOrderStatus db a.orderId .paymentException
  setReversalStatus db a.id .applied

def markPaymentException (db : Db) (paymentAttemptId : Uuid) : Db :=
  match lockAttemptById db paymentAttemptId with
  | some a => if a.orderStatus = .pendingPayment then setOrderStatus db a.orderId .paymentException
      else db
  | none => db

/-! ## `membership/router.py` -/

def membershipPrice : Int := 2900

def membershipPolicy : String := "membership-v1"

def isMember (db : Db) (userId : Uuid) : Bool :=
  (db.memberships.find? userId).any fun m => m.status = .active

def hasPendingMembershipPayment (db : Db) (userId : Uuid) : Bool :=
  !(db.orders.select fun id o => o.buyerId = userId && o.status = .pendingPayment &&
    !(db.items.select fun _ i =>
      i.orderId = id && i.commissionPolicyVersion = membershipPolicy).isEmpty).isEmpty

/-- The three inserts of `membership_checkout`. -/
def createMembershipOrder (db : Db) (userId : Uuid) (outTradeNo : String) (expiresAt : Nat)
    (orderId attemptId : Uuid) : Txn Failure Db := do
  let order ← newOrder userId membershipPrice
  let orders ← orFail (db.orders.insert? orderId order) (.integrity "orders_pkey")
  let attempts ← insertAttempt db.attempts attemptId orderId outTradeNo membershipPrice expiresAt
  let membershipOrders ← orFail (db.membershipOrders.insert? orderId userId)
    (.integrity "membership_orders_pkey")
  return { db with orders, attempts, membershipOrders }

def grantMembership (db : Db) (operator userId : Uuid) : Db :=
  { db with memberships := db.memberships.upsert userId ⟨.active, some operator⟩ fun _ =>
      ⟨.active, some operator⟩ }

end FractalStudio.Commerce
