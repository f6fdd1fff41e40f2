import FractalStudio.Lib.Table

/-!
# The platform's money tables

The tables of orders, payments, entitlements, creator money and memberships. Money is an integer
number of cents (`NUMERIC(18, 2)`), UUIDs are natural numbers. A row type carries the `CHECK`
constraints of its table, so a row that breaks one cannot be built; an insert that would break one
fails, as the database does.

The currency is `CNY` in every table by a `CHECK`.
-/
namespace FractalStudio.Platform

abbrev Uuid := Nat

inductive OrderStatus where
  | pendingPayment
  | fulfilled
  | closed
  | paymentException
  deriving DecidableEq

inductive AttemptStatus where
  | created
  | pending
  | succeeded
  | closed
  | failed
  deriving DecidableEq

inductive EntitlementStatus where
  | active
  | revoked
  deriving DecidableEq

inductive ReversalStatus where
  | detected
  | applied
  | manualReview
  deriving DecidableEq

inductive LedgerAccount where
  | creatorAvailable
  | creatorReserved
  | platformRevenue
  deriving DecidableEq

inductive EntryType where
  | creatorCredit
  | platformFee
  | creatorReversal
  | platformReversal
  | payoutReserved
  | payoutPaid
  | payoutReleased
  deriving DecidableEq

inductive PayoutStatus where
  | pending
  | paid
  | rejected
  | cancelled
  deriving DecidableEq

inductive MembershipStatus where
  | active
  | revoked
  deriving DecidableEq

inductive TradeStatus where
  | waitBuyerPay
  | tradeSuccess
  | tradeFinished
  | tradeClosed
  | other (name : String)
  deriving DecidableEq

/-- The provider's account of a payment, as `AlipayTrade` carries it. -/
structure AlipayTrade where
  outTradeNo : String
  tradeNo : String
  tradeStatus : TradeStatus
  totalAmount : Int
  refundAmount : Option Int
  deriving DecidableEq

/-- The signed fields of a notification: the trade that is read from them, and their canonical text,
which stands for its SHA-256. Two readings may share a text. -/
structure SignedFields where
  trade : AlipayTrade
  canonical : String
  deriving DecidableEq

structure Order where
  buyerId : Uuid
  status : OrderStatus
  amount : Int
  minimum : 1 ≤ amount
  deriving DecidableEq

structure OrderItem where
  orderId : Uuid
  listingId : Uuid
  assetId : Uuid
  creatorId : Uuid
  priceAmount : Int
  commissionPolicyVersion : String
  creatorAmount : Int
  platformFeeAmount : Int
  minimum : 1 ≤ priceAmount
  creatorNonneg : 0 ≤ creatorAmount
  feeNonneg : 0 ≤ platformFeeAmount
  split : creatorAmount + platformFeeAmount = priceAmount
  deriving DecidableEq

structure PaymentAttempt where
  orderId : Uuid
  outTradeNo : String
  alipayTradeNo : Option String
  status : AttemptStatus
  amount : Int
  expiresAt : Nat
  minimum : 1 ≤ amount
  deriving DecidableEq

structure PaymentNotification where
  paymentAttemptId : Uuid
  tradeStatus : TradeStatus
  deriving DecidableEq

structure Reversal where
  orderId : Uuid
  amount : Int
  status : ReversalStatus
  minimum : 1 ≤ amount
  deriving DecidableEq

structure Entitlement where
  userId : Uuid
  assetId : Uuid
  orderItemId : Uuid
  status : EntitlementStatus
  deriving DecidableEq

/-- A row of `ledger_entries`. -/
structure LedgerEntry where
  creatorId : Option Uuid
  orderItemId : Option Uuid
  payoutRequestId : Option Uuid
  account : LedgerAccount
  signedAmount : Int
  entryType : EntryType
  nonzero : signedAmount ≠ 0
  oneSource : orderItemId.isSome ≠ payoutRequestId.isSome
  accountCreator : account = .platformRevenue ∧ creatorId = none ∨
    account ≠ .platformRevenue ∧ creatorId ≠ none
  deriving DecidableEq

structure CreatorBalance where
  availableAmount : Int
  reservedAmount : Int
  availableNonneg : 0 ≤ availableAmount
  reservedNonneg : 0 ≤ reservedAmount
  deriving DecidableEq

structure PayoutRequest where
  creatorId : Uuid
  operatorUserId : Option Uuid
  amount : Int
  status : PayoutStatus
  externalReference : Option String
  rejectionReason : Option String
  minimum : 1 ≤ amount
  paidOperatorReference : status = .paid → operatorUserId ≠ none ∧ externalReference ≠ none
  rejectedOperatorReason : status = .rejected → operatorUserId ≠ none ∧ rejectionReason ≠ none
  deriving DecidableEq

structure Membership where
  status : MembershipStatus
  grantedBy : Option Uuid
  deriving DecidableEq

/-- The creators' money: the journal, its projection, and the payout requests. -/
structure Books where
  ledger : List LedgerEntry
  balances : Table Uuid CreatorBalance
  payouts : Table Uuid PayoutRequest

/-- `notifications` is keyed by the canonical text and `reversals` by the payment attempt, which are
their unique keys. -/
structure Db where
  orders : Table Uuid Order
  items : Table Uuid OrderItem
  attempts : Table Uuid PaymentAttempt
  notifications : Table String PaymentNotification
  reversals : Table Uuid Reversal
  entitlements : List Entitlement
  books : Books
  memberships : Table Uuid Membership
  membershipOrders : Table Uuid Uuid

def Books.empty : Books := ⟨[], .empty, .empty⟩

def Db.empty : Db :=
  ⟨.empty, .empty, .empty, .empty, .empty, [], .empty, .empty, .empty⟩

/-- Why a transaction was rolled back: an HTTP error of the service, an error of the
ledger, a constraint of the database, or a failed internal check. -/
inductive Failure where
  | http (statusCode : Nat) (detail : String)
  | ledgerInvariant (code : String)
  | insufficientCreatorBalance
  | integrity (constraint : String)
  | invariant (message : String)
  deriving DecidableEq

end FractalStudio.Platform
