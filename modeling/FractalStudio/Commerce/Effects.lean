import FractalStudio.Commerce.System

/-!
# What a step can write

Each transaction is inverted once. A handler's transaction does one of five things
to the attempt and order it locked, whatever its entry point; a step does that, or
places an order, or touches only memberships or the books.
-/
namespace FractalStudio.Commerce

open Platform Finance Txn

/-! ## The rows a handler locked -/

/-- The locked rows are rows of the tables. -/
structure Locked (db : Db) (a : LockedPaymentAttempt) : Prop where
  attempt : ∃ p, db.attempts.find? a.id = some p ∧ p.orderId = a.orderId ∧ p.status = a.status ∧
    p.amount = a.amount ∧ p.outTradeNo = a.outTradeNo
  order : ∃ o, db.orders.find? a.orderId = some o ∧ o.status = a.orderStatus ∧
    o.buyerId = a.buyerId ∧ o.amount = a.orderAmount
  items : a.items = orderItems db a.orderId

variable {id : Uuid}

theorem locked_of_find {db : Db} {p : PaymentAttempt} {a : LockedPaymentAttempt}
    (hp : db.attempts.find? id = some p) (h : lockedAttempt db id p = some a) :
    Locked db a ∧ a.id = id ∧ a.outTradeNo = p.outTradeNo := by
  obtain ⟨o, ho, rfl⟩ := Option.map_eq_some_iff.mp h
  exact ⟨⟨⟨p, hp, rfl, rfl, rfl, rfl⟩, ⟨o, ho, rfl, rfl, rfl⟩, rfl⟩, rfl, rfl⟩

theorem locked_of_id {db : Db} {a : LockedPaymentAttempt} (h : lockAttemptById db id = some a) :
    Locked db a ∧ a.id = id := by
  obtain ⟨p, hp, h⟩ := Option.bind_eq_some_iff.mp h
  obtain ⟨hlocked, hid, -⟩ := locked_of_find hp h
  exact ⟨hlocked, hid⟩

theorem locked_of_outTradeNo {db : Db} {outTradeNo : String} {a : LockedPaymentAttempt}
    (h : lockAttemptByOutTradeNo db outTradeNo = some a) :
    Locked db a ∧ a.outTradeNo = outTradeNo := by
  obtain ⟨⟨id, p⟩, hhead, h⟩ := Option.bind_eq_some_iff.mp h
  obtain ⟨hp, hno⟩ := Table.mem_select.mp (List.mem_of_mem_head? hhead)
  obtain ⟨hlocked, -, hout⟩ := locked_of_find hp h
  exact ⟨hlocked, hout.trans (of_decide_eq_true hno)⟩

def withNotifications (db : Db) (notifications : Table String PaymentNotification) : Db :=
  { db with notifications }

theorem Locked.withNotifications {db : Db} {a : LockedPaymentAttempt} (h : Locked db a)
    (n : Table String PaymentNotification) : Locked (withNotifications db n) a :=
  ⟨h.attempt, h.order, h.items⟩

/-! ## What a handler's transaction can write -/

/-- The tables after a settlement. -/
def paid (db : Db) (a : LockedPaymentAttempt) (tradeNo : String) (books : Books) : Db :=
  let db := { grantEntitlements (settleRows db a tradeNo) a.buyerId a.items with books }
  if (db.membershipOrders.find? a.orderId).isSome then activateMembership db a.buyerId else db

def withReversal (db : Db) (a : LockedPaymentAttempt) (reversal : Reversal) : Db :=
  { db with reversals := db.reversals.insertIfAbsent a.id reversal }

/-- The writes of a handler to the attempt and order it locked. Only one that `pays` for
them can settle, only one that `reverses` them can undo a settlement. -/
inductive Handled (pays reverses : Prop) (a : LockedPaymentAttempt) (db : Db) : Db → Prop
  | nothing : Handled pays reverses a db db
  | settled {tradeNo : String} {books : Books} : pays → unpaid a = true →
      recordSales db.items db.books a.items = .ok books →
      Handled pays reverses a db (paid db a tradeNo books)
  | closed : unpaid a = true →
      Handled pays reverses a db (setOrderStatus (setAttemptStatus db a.id .closed) a.orderId .closed)
  | reversed {amount : Int} {reversal : Reversal} {books : Books} : reverses →
      a.orderStatus = .fulfilled → newReversal a.orderId amount = .ok reversal →
      reverseSales db.items db.books a.items = .ok books →
      Handled pays reverses a db (applyReversal { withReversal db a reversal with books } a)
  | reviewed {amount : Int} {reversal : Reversal} (revoke : Bool) : reverses →
      newReversal a.orderId amount = .ok reversal →
      Handled pays reverses a db
        (markReversalManualReview (withReversal db a reversal) a.id a.orderId revoke)
  | excepted : a.orderStatus = .pendingPayment →
      Handled pays reverses a db (setOrderStatus db a.orderId .paymentException)

theorem markSettled_commits {db : Db} {a : LockedPaymentAttempt} {tradeNo : String}
    {result : Option Db} (h : markSettled db a tradeNo = .ok result) :
    result = none ∧ unpaid a = false ∨ unpaid a = true ∧ result = some (settleRows db a tradeNo) := by
  unfold markSettled at h
  split at h
  · next hdone =>
    simp only [Bool.and_eq_true, decide_eq_true_eq] at hdone
    have hunpaid : unpaid a = false := by simp [unpaid, hdone.1, hdone.2]
    exact .inl ⟨(Except.ok.inj h).symm, hunpaid⟩
  · split at h
    · next hpaid =>
      rw [Bool.not_eq_true'] at hpaid
      exact .inl ⟨(Except.ok.inj h).symm, hpaid⟩
    · next hunpaid =>
      obtain ⟨_, -, h⟩ := bind_commits.mp h
      rw [Bool.not_eq_true', Bool.not_eq_false] at hunpaid
      exact .inr ⟨hunpaid, (Except.ok.inj h).symm⟩

theorem settlePaid_commits {db db' : Db} {a : LockedPaymentAttempt} {tradeNo : String}
    (h : settlePaid (settleRows db a tradeNo) a = .ok db') :
    ∃ books, recordSales db.items db.books a.items = .ok books ∧ db' = paid db a tradeNo books := by
  obtain ⟨books, hbooks, h⟩ := bind_commits.mp h
  exact ⟨books, hbooks, (Except.ok.inj h).symm⟩

theorem settleLocked_commits {db db' : Db} {a : LockedPaymentAttempt} {trade : AlipayTrade}
    (h : settleLocked db a trade = .ok db') :
    unpaid a = false ∧ db' = db ∨
    unpaid a = true ∧ ∃ books, recordSales db.items db.books a.items = .ok books ∧
      db' = paid db a trade.tradeNo books := by
  obtain ⟨_, -, h⟩ := bind_commits.mp h
  obtain ⟨result, hresult, h⟩ := bind_commits.mp h
  rcases markSettled_commits hresult with ⟨rfl, hpaid⟩ | ⟨hunpaid, rfl⟩
  · exact .inl ⟨hpaid, (Except.ok.inj h).symm⟩
  · exact .inr ⟨hunpaid, settlePaid_commits h⟩

variable {amount : Int} {fields : SignedFields}

section Handlers
variable {pays reverses : Prop} {db db' : Db} {a : LockedPaymentAttempt} {trade : AlipayTrade}

theorem handled_settleLocked (hpays : unpaid a = true → pays)
    (h : settleLocked db a trade = .ok db') : Handled pays reverses a db db' := by
  rcases settleLocked_commits h with ⟨-, rfl⟩ | ⟨hunpaid, books, hbooks, rfl⟩
  · exact .nothing
  · exact .settled (hpays hunpaid) hunpaid hbooks

theorem handled_closeUnpaid (db : Db) (a : LockedPaymentAttempt) :
    Handled pays reverses a db ((closeUnpaid db a).getD db) := by
  unfold closeUnpaid
  split
  · next hunpaid => exact .closed hunpaid
  · exact .nothing

variable {reversal : Reversal}

theorem handled_reverseInFull (hreverses : reverses) (hstatus : a.orderStatus = .fulfilled)
    (hreversal : newReversal a.orderId amount = .ok reversal)
    (h : reverseInFull (withReversal db a reversal) a = .ok db') :
    Handled pays reverses a db db' := by
  obtain ⟨books, hbooks, h⟩ := bind_commits.mp h
  obtain rfl := Except.ok.inj h
  exact .reversed hreverses hstatus hreversal hbooks

theorem createOrGetReversal_commits {result : Db × Reversal}
    (h : createOrGetReversal db a amount = .ok result) :
    ∃ reversal, newReversal a.orderId amount = .ok reversal ∧
      result = (withReversal db a reversal, (db.reversals.find? a.id).getD reversal) := by
  obtain ⟨reversal, hreversal, h⟩ := bind_commits.mp h
  exact ⟨reversal, hreversal, (Except.ok.inj h).symm⟩

theorem insertPaymentNotification_eq_some {db₁ : Db}
    (h : insertPaymentNotification db id fields = some db₁) :
    ∃ n, db.notifications.insert? fields.canonical ⟨id, fields.trade.tradeStatus⟩ = some n ∧
      db₁ = withNotifications db n := by
  obtain ⟨n, hn, rfl⟩ := Option.map_eq_some_iff.mp h
  exact ⟨n, hn, rfl⟩

theorem recordNotification_commits {handle : Db → LockedPaymentAttempt → Txn Failure Db}
    (h : recordNotification db fields handle = .ok db') :
    ∃ a, lockAttemptByOutTradeNo db fields.trade.outTradeNo = some a ∧
      fields.trade.totalAmount = a.amount ∧
      ((∃ row, db.notifications.find? fields.canonical = some row) ∧ db' = db ∨
        ∃ n, db.notifications.insert? fields.canonical ⟨a.id, fields.trade.tradeStatus⟩ = some n ∧
          handle (withNotifications db n) a = .ok db') := by
  obtain ⟨a, ha, h⟩ := bind_commits.mp h
  obtain ⟨_, hvalid, h⟩ := bind_commits.mp h
  rw [orFail_eq_ok] at ha
  simp only [validateTrade, require_eq_ok, Bool.and_eq_true, decide_eq_true_eq] at hvalid
  refine ⟨a, ha, hvalid.2, ?_⟩
  split at h
  · next hnone =>
    left
    refine ⟨?_, (Except.ok.inj h).symm⟩
    rw [insertPaymentNotification, Option.map_eq_none_iff] at hnone
    cases hfind : db.notifications.find? fields.canonical with
    | some row => exact ⟨row, rfl⟩
    | none =>
      obtain ⟨n, hn⟩ := Table.exists_insert hfind ⟨a.id, fields.trade.tradeStatus⟩
      rw [hn] at hnone
      cases hnone
  · next db₁ hsome =>
    obtain ⟨n, hn, rfl⟩ := insertPaymentNotification_eq_some hsome
    exact .inr ⟨n, hn, h⟩

theorem withReversal_of_found {found : Reversal}
    (h : db.reversals.find? a.id = some found) (reversal : Reversal) :
    withReversal db a reversal = db := by
  unfold withReversal
  rw [Table.insertIfAbsent, Table.insert?_eq_none h]
  rfl

theorem newReversal_detected {orderId : Uuid} (h : newReversal orderId amount = .ok reversal) :
    reversal.status = .detected ∧ reversal.amount = amount ∧ reversal.orderId = orderId := by
  unfold newReversal at h
  split at h
  · split at h
    · obtain rfl := Except.ok.inj h
      exact ⟨rfl, rfl, rfl⟩
    · cases h
  · cases h

theorem withReversal_of_not_detected (hreversal : newReversal a.orderId amount = .ok reversal)
    (h : ((db.reversals.find? a.id).getD reversal).status ≠ .detected) :
    withReversal db a reversal = db := by
  cases hfind : db.reversals.find? a.id with
  | some found => exact withReversal_of_found hfind reversal
  | none =>
    rw [hfind] at h
    exact absurd (newReversal_detected hreversal).1 h

theorem handled_notifiedClosure (hreverses : reverses)
    (h : notifiedClosure trade db a = .ok db') : Handled pays reverses a db db' := by
  unfold notifiedClosure at h
  split at h
  · obtain rfl := Except.ok.inj h
    exact handled_closeUnpaid db a
  · split at h
    · obtain rfl := Except.ok.inj h
      exact .nothing
    · next hfulfilled =>
      obtain ⟨result, hresult, h⟩ := bind_commits.mp h
      obtain ⟨reversal, hreversal, rfl⟩ := createOrGetReversal_commits hresult
      rw [not_not] at hfulfilled
      dsimp only at h
      split at h
      · next hstatus =>
        obtain rfl := Except.ok.inj h
        rw [withReversal_of_not_detected hreversal hstatus]
        exact .nothing
      · split at h
        · obtain rfl := Except.ok.inj h
          exact .reviewed false hreverses hreversal
        · exact handled_reverseInFull hreverses hfulfilled hreversal h

theorem handled_reverseLocked (hreverses : reverses) (h : reverseLocked db a amount = .ok db') :
    Handled pays reverses a db db' := by
  unfold reverseLocked at h
  split at h
  · obtain rfl := Except.ok.inj h
    exact .nothing
  · next hfulfilled =>
    obtain ⟨result, hresult, h⟩ := bind_commits.mp h
    obtain ⟨reversal, hreversal, rfl⟩ := createOrGetReversal_commits hresult
    rw [not_not] at hfulfilled
    dsimp only at h
    split at h
    · next hstatus =>
      have hdetected : ((db.reversals.find? a.id).getD reversal).status ≠ .detected := by
        intro heq
        rw [heq] at hstatus
        simp at hstatus
      obtain rfl := Except.ok.inj h
      rw [withReversal_of_not_detected hreversal hdetected]
      exact .nothing
    · split at h
      · obtain rfl := Except.ok.inj h
        exact .reviewed true hreverses hreversal
      · exact handled_reverseInFull hreverses hfulfilled hreversal h

theorem handled_reviewInstead (hreverses : reverses) (h : reviewInstead db a amount = .ok db') :
    Handled pays reverses a db db' := by
  obtain ⟨result, hresult, h⟩ := bind_commits.mp h
  obtain ⟨reversal, hreversal, rfl⟩ := createOrGetReversal_commits hresult
  obtain rfl := Except.ok.inj h
  exact .reviewed false hreverses hreversal

end Handlers

/-! ## What a step can write -/

/-- What became of a recorded notification of the attempt. -/
inductive Outcome (trade : AlipayTrade) (t : LockedPaymentAttempt) (db db' : Db) : Prop
  | settled : isPaid trade.tradeStatus = true → settleLocked db t trade = .ok db' →
      Outcome trade t db db'
  | ignored : isPaid trade.tradeStatus = false → trade.tradeStatus ≠ .tradeClosed → db' = db →
      Outcome trade t db db'
  | closure : trade.tradeStatus = .tradeClosed → notifiedClosure trade db t = .ok db' →
      Outcome trade t db db'
  | review : reviewInstead db t (refundOrTotal trade) = .ok db' → Outcome trade t db db'

/-- The notifications a handler leaves: those it found, or one more. -/
inductive Recording (s : State) (a : Action) (t : LockedPaymentAttempt) (db : Db) :
    Table String PaymentNotification → Prop
  | unrecorded : Recording s a t db s.db.notifications
  | recorded {c : CallId} {fields : SignedFields} {n : Table String PaymentNotification} :
      a = .notify c fields ∨ s.calls c = some (.recoveringNotification fields) ∧
        a = .recoverNotification c →
      lockAttemptByOutTradeNo s.db fields.trade.outTradeNo = some t →
      s.db.notifications.insert? fields.canonical ⟨t.id, fields.trade.tradeStatus⟩ = some n →
      Outcome fields.trade t (withNotifications s.db n) db → Recording s a t db n

def paidAttempt (trade : AlipayTrade) (found : Option LockedPaymentAttempt) :
    Option LockedPaymentAttempt :=
  found.filter fun t => isPaid trade.tradeStatus && unpaid t && trade.outTradeNo = t.outTradeNo &&
    trade.totalAmount = t.amount

def Action.settles (s : State) : Action → Option LockedPaymentAttempt
  | .notify _ fields =>
    paidAttempt fields.trade (lockAttemptByOutTradeNo s.db fields.trade.outTradeNo)
  | .queried c trade =>
    match s.calls c with
    | some (.querying id _) => paidAttempt trade (lockAttemptById s.db id)
    | _ => none
  | _ => none

/-- The attempt an action brings a closure of a paid trade for. -/
def Action.reverses (s : State) : Action → Option LockedPaymentAttempt
  | .notify _ fields =>
    if fields.trade.tradeStatus = .tradeClosed
      then lockAttemptByOutTradeNo s.db fields.trade.outTradeNo else none
  | .recoverNotification c =>
    match s.calls c with
    | some (.recoveringNotification fields) =>
      lockAttemptByOutTradeNo s.db fields.trade.outTradeNo
    | _ => none
  | .reverse c =>
    match s.calls c with
    | some (.reversing id _) => lockAttemptById s.db id
    | _ => none
  | .recover c =>
    match s.calls c with
    | some (.recoveringReversal id _) => lockAttemptById s.db id
    | _ => none
  | _ => none

/-- The database a step leaves. -/
inductive Effect (settings : Settings) (s : State) (a : Action) : Db → Prop
  | quiet : Effect settings s a s.db
  | handled {t : LockedPaymentAttempt} {n : Table String PaymentNotification} {db : Db} :
      Locked s.db t → s.lockable (some t) = true →
      Handled (a.settles s = some t) (a.reverses s = some t) t (withNotifications s.db n) db →
      Recording s a t db n → Effect settings s a db
  | placed {c : CallId} {buyerId : Uuid} {offer : PublishedOfferSnapshot} {expiresAt : Nat}
      {attemptIds orderIds : List Uuid} {outTradeNo : String} {orderId itemId attemptId : Uuid}
      {db : Db} : a = .commitCheckout c outTradeNo orderId itemId attemptId →
      s.calls c = some (.checkout buyerId offer expiresAt (.ordersClosed attemptIds orderIds)) →
      placeOrder settings s.db buyerId offer attemptIds orderIds outTradeNo expiresAt orderId itemId
        attemptId = .ok db →
      Effect settings s a db
  | joined {c : CallId} {userId : Uuid} {expiresAt : Nat} {outTradeNo : String}
      {orderId attemptId : Uuid} {db : Db} : a = .commitMembership c outTradeNo orderId attemptId →
      s.calls c = some (.membershipCheckout userId expiresAt .noPendingPayment) →
      createMembershipOrder s.db userId outTradeNo expiresAt orderId attemptId = .ok db →
      Effect settings s a db
  | granted {operator userId : Uuid} : a = .grantMembership operator userId →
      Effect settings s a (grantMembership s.db operator userId)
  | paidOut {call : PayoutCall} {books : Books} : a = .payout call →
      payout s.db.books call = .ok books → Effect settings s a { s.db with books }

/-- The call an action starts, continues or ends. -/
def Action.actor : Action → Option CallId
  | .checkout c _ _ | .membershipCheckout c _ | .abort c | .notify c _ | .reconcile c _ => some c
  | a => a.call?

variable {c : CallId}

theorem actor_of_call? {a : Action} (h : a.call? = some c) : a.actor = some c := by
  cases a <;> first | exact h | cases h

/-- Whether a call has neither read the orders to close nor locked a row. -/
def Call.idle : Call → Bool
  | .checkout _ _ _ .started | .checkout _ _ _ .notOwned => true
  | .checkout _ _ _ _ => false
  | _ => true

/-- The buyer and the asset of a checkout that has passed the ownership check. -/
def Call.buying : Call → Option (Uuid × Uuid)
  | .checkout _ _ _ .started => none
  | .checkout buyerId offer _ _ => some (buyerId, offer.assetId)
  | _ => none

/-- The acknowledgements after a step: a paid notification that commits adds one. -/
inductive Accepting (s : State) (a : Action) (db : Db) : List Uuid → Prop
  | same : (∀ c fields, a = .notify c fields → isPaid fields.trade.tradeStatus = false) →
      Accepting s a db s.accepted
  | added {c : CallId} {fields : SignedFields} {t : LockedPaymentAttempt} :
      a = .notify c fields → isPaid fields.trade.tradeStatus = true →
      lockAttemptByOutTradeNo s.db fields.trade.outTradeNo = some t →
      processNotification s.db fields = .ok db → Accepting s a db (t.id :: s.accepted)

/-- The state a step leaves. -/
inductive Shape (settings : Settings) (s : State) (a : Action) : State → Prop
  | kept {db : Db} {now : Nat} {accepted : List Uuid} : a.call? = none → Effect settings s a db →
      Accepting s a db accepted →
      Shape settings s a { s with db, now, accepted }
  | resumed {c : CallId} {call : Call} : a.actor = some c → call.idle = true →
      (∀ fields, call = .recoveringNotification fields → fields.trade.tradeStatus = .tradeClosed) →
      (∀ x, call.buying = some x → hasActiveEntitlement s.db x.1 x.2 = false) →
      Shape settings s a (s.put c call)
  | pendingRead {c : CallId} {buyerId : Uuid} {offer : PublishedOfferSnapshot} {expiresAt : Nat} :
      a.actor = some c → s.calls c = some (.checkout buyerId offer expiresAt .notOwned) →
      Shape settings s a (s.put c (.checkout buyerId offer expiresAt
        (.closingAttempts (pendingOrdersForListing s.db buyerId offer.listingId))))
  | attemptsLocked {c : CallId} {buyerId : Uuid} {offer : PublishedOfferSnapshot} {expiresAt : Nat}
      {orderIds : List Uuid} : a.actor = some c →
      s.calls c = some (.checkout buyerId offer expiresAt (.closingAttempts orderIds)) →
      free s.attemptLocks (createdAttempts s.db orderIds) = true →
      Shape settings s a { s.put c (.checkout buyerId offer expiresAt
          (.attemptsClosed (createdAttempts s.db orderIds))) with
        attemptLocks := acquire s.attemptLocks (createdAttempts s.db orderIds) c }
  | ordersRead {c : CallId} {buyerId : Uuid} {offer : PublishedOfferSnapshot} {expiresAt : Nat}
      {attemptIds : List Uuid} : a.actor = some c →
      s.calls c = some (.checkout buyerId offer expiresAt (.attemptsClosed attemptIds)) →
      Shape settings s a (s.put c (.checkout buyerId offer expiresAt (.closingOrders attemptIds
        ((ordersForListing s.db buyerId offer.listingId).map Prod.fst))))
  | ordersLocked {c : CallId} {buyerId : Uuid} {offer : PublishedOfferSnapshot} {expiresAt : Nat}
      {attemptIds listed : List Uuid} : a.actor = some c →
      s.calls c = some (.checkout buyerId offer expiresAt (.closingOrders attemptIds listed)) →
      free s.orderLocks (pendingOrders s.db listed) = true →
      Shape settings s a { s.put c (.checkout buyerId offer expiresAt
          (.ordersClosed attemptIds (pendingOrders s.db listed))) with
        orderLocks := acquire s.orderLocks (pendingOrders s.db listed) c }
  | finished {c : CallId} {db : Db} : a.call? = some c ∨ a = .abort c → Effect settings s a db →
      Shape settings s a ((s.withDb db).finish c)

section Step
variable {settings : Settings} {s s' : State} {a : Action}

variable {t : LockedPaymentAttempt}

theorem paidAttempt_eq_some {trade : AlipayTrade} (hpaid : isPaid trade.tradeStatus = true)
    (hunpaid : unpaid t = true) (hno : trade.outTradeNo = t.outTradeNo)
    (hamount : trade.totalAmount = t.amount) :
    paidAttempt trade (some t) = some t := by
  rw [paidAttempt, Option.filter_some, if_pos]
  simp [hpaid, hunpaid, hno, hamount]

theorem validateTrade_commits {trade : AlipayTrade} {u : Unit} (h : validateTrade trade t = .ok u) :
    trade.outTradeNo = t.outTradeNo ∧ trade.totalAmount = t.amount := by
  rw [validateTrade, require_eq_ok, Bool.and_eq_true, decide_eq_true_eq, decide_eq_true_eq] at h
  exact h

theorem effect_of_handled {db : Db} (ht : lockAttemptById s.db id = some t)
    (hfree : s.lockable (lockAttemptById s.db id) = true)
    (h : Handled (a.settles s = some t) (a.reverses s = some t) t s.db db) :
    Effect settings s a db := by
  rw [ht] at hfree
  exact .handled (locked_of_id ht).1 hfree h .unrecorded

theorem effect_recordNotification {db : Db} {handle : Db → LockedPaymentAttempt → Txn Failure Db}
    (hentry : a = .notify c fields ∨
      s.calls c = some (.recoveringNotification fields) ∧ a = .recoverNotification c)
    (hfree : s.lockable (lockAttemptByOutTradeNo s.db fields.trade.outTradeNo) = true)
    (houtcome : ∀ {db₁ t}, lockAttemptByOutTradeNo s.db fields.trade.outTradeNo = some t →
      fields.trade.totalAmount = t.amount → handle db₁ t = .ok db →
      Outcome fields.trade t db₁ db ∧
        Handled (a.settles s = some t) (a.reverses s = some t) t db₁ db)
    (h : recordNotification s.db fields handle = .ok db) : Effect settings s a db := by
  obtain ⟨t, ht, hamount, ⟨-, rfl⟩ | ⟨n, hn, h⟩⟩ := recordNotification_commits h
  · exact .quiet
  · rw [ht] at hfree
    obtain ⟨ho, hhandled⟩ := houtcome ht hamount h
    exact .handled (locked_of_outTradeNo ht).1 hfree hhandled (.recorded hentry ht hn ho)

theorem shape_checkoutStep {buyerId : Uuid} {offer : PublishedOfferSnapshot} {expiresAt : Nat}
    {phase : CheckoutPhase} (hentry : a.call? = some c)
    (hcall : s.calls c = some (.checkout buyerId offer expiresAt phase))
    (h : checkoutStep s c buyerId offer expiresAt phase a = some s') : Shape settings s a s' := by
  unfold checkoutStep at h
  split at h
  · split at h
    · obtain rfl := Option.some.inj h
      exact .finished (.inl hentry) .quiet
    · next hnone =>
      obtain rfl := Option.some.inj h
      refine .resumed (actor_of_call? hentry) rfl (by simp) fun x hx => ?_
      obtain rfl := Option.some.inj hx
      rwa [Bool.not_eq_true] at hnone
  · obtain rfl := Option.some.inj h
    exact .pendingRead (actor_of_call? hentry) hcall
  · dsimp only at h
    split at h
    · next hfree =>
      obtain rfl := Option.some.inj h
      exact .attemptsLocked (actor_of_call? hentry) hcall hfree
    · cases h
  · obtain rfl := Option.some.inj h
    exact .ordersRead (actor_of_call? hentry) hcall
  · dsimp only at h
    split at h
    · next hfree =>
      obtain rfl := Option.some.inj h
      exact .ordersLocked (actor_of_call? hentry) hcall hfree
    · cases h
  · cases h

theorem shape_membershipStep {userId : Uuid} {expiresAt : Nat} {phase : MembershipPhase}
    (hentry : a.call? = some c) (h : membershipStep s c userId expiresAt phase a = some s') :
    Shape settings s a s' := by
  unfold membershipStep at h
  split at h
  · split at h
    · obtain rfl := Option.some.inj h
      exact .finished (.inl hentry) .quiet
    · obtain rfl := Option.some.inj h
      exact .resumed (actor_of_call? hentry) rfl (by simp) nofun
  · split at h
    · obtain rfl := Option.some.inj h
      exact .finished (.inl hentry) .quiet
    · obtain rfl := Option.some.inj h
      exact .resumed (actor_of_call? hentry) rfl (by simp) nofun
  · cases h

theorem shape_endWith {x : Txn Failure Db} (hentry : a.call? = some c)
    (hx : ∀ db, x = .ok db → Effect settings s a db) : Shape settings s a (endWith s c x) := by
  cases x with
  | ok db => exact .finished (.inl hentry) (hx db rfl)
  | error e => exact .finished (.inl hentry) .quiet

theorem effect_settleByAttempt {snapshot : PaymentAttempt} {trade : AlipayTrade} {db : Db}
    (hcall : s.calls c = some (.querying id snapshot)) (hpaid : isPaid trade.tradeStatus = true)
    (hfree : s.lockable (lockAttemptById s.db id) = true)
    (h : settleByAttempt s.db id trade = .ok db) : Effect settings s (.queried c trade) db := by
  unfold settleByAttempt at h
  split at h
  · obtain rfl := Except.ok.inj h
    exact .quiet
  · next t ht =>
    obtain ⟨_, hvalid, h⟩ := bind_commits.mp h
    obtain ⟨hno, hamount⟩ := validateTrade_commits hvalid
    refine effect_of_handled ht hfree (handled_settleLocked (fun hunpaid => ?_) h)
    rw [Action.settles, hcall]
    show paidAttempt trade (lockAttemptById s.db id) = some t
    rw [ht]
    exact paidAttempt_eq_some hpaid hunpaid hno hamount

theorem effect_closeQueried {trade : AlipayTrade} {db : Db}
    (hfree : s.lockable (lockAttemptById s.db id) = true)
    (h : closeQueried s.db id trade = .ok (some db)) : Effect settings s a db := by
  unfold closeQueried at h
  split at h
  · obtain rfl := Option.some.inj (Except.ok.inj h)
    exact .quiet
  · next t ht =>
    obtain ⟨_, -, h⟩ := bind_commits.mp h
    split at h
    · obtain rfl := Option.some.inj (Except.ok.inj h)
      exact effect_of_handled ht hfree (handled_closeUnpaid s.db t)
    · cases h

theorem effect_reversePaid {db : Db} (hreverses : a.reverses s = lockAttemptById s.db id)
    (hfree : s.lockable (lockAttemptById s.db id) = true)
    (h : reversePaid s.db id amount = .ok db) : Effect settings s a db := by
  unfold reversePaid at h
  split at h
  · obtain rfl := Except.ok.inj h
    exact .quiet
  · next t ht =>
    exact effect_of_handled ht hfree (handled_reverseLocked (hreverses.trans ht) h)

theorem effect_recoverReversal {db : Db} (hreverses : a.reverses s = lockAttemptById s.db id)
    (hfree : s.lockable (lockAttemptById s.db id) = true)
    (h : recoverReversal s.db id amount = .ok db) : Effect settings s a db := by
  unfold recoverReversal at h
  split at h
  · obtain rfl := Except.ok.inj h
    exact .quiet
  · next t ht =>
    exact effect_of_handled ht hfree (handled_reviewInstead (hreverses.trans ht) h)

theorem effect_closeExpired (hfree : s.lockable (lockAttemptById s.db id) = true) :
    Effect settings s a (closeExpired s.db id) := by
  unfold closeExpired
  cases ht : lockAttemptById s.db id with
  | none => exact .quiet
  | some t =>
    rw [Option.bind_some]
    exact effect_of_handled ht hfree (handled_closeUnpaid s.db t)

theorem effect_markPaymentException (hfree : s.lockable (lockAttemptById s.db id) = true) :
    Effect settings s a (markPaymentException s.db id) := by
  unfold markPaymentException
  split
  · next t ht =>
    split
    · next hpending => exact effect_of_handled ht hfree (.excepted hpending)
    · exact .quiet
  · exact .quiet

theorem shape_queriedStep {snapshot : PaymentAttempt} {trade : AlipayTrade}
    (hcall : s.calls c = some (.querying id snapshot))
    (h : queriedStep s c id snapshot trade = some s') :
    Shape settings s (.queried c trade) s' := by
  have hentry : (Action.queried c trade).call? = some c := rfl
  unfold queriedStep at h
  split at h
  · obtain rfl := Option.some.inj h
    exact .finished (.inl hentry) .quiet
  split at h
  · next hpaid =>
    split at h
    · next hfree =>
      split at h
      · next db hdb =>
        obtain rfl := Option.some.inj h
        exact .finished (.inl hentry) (effect_settleByAttempt hcall hpaid hfree hdb)
      · obtain rfl := Option.some.inj h
        exact .finished (.inl hentry) .quiet
    · cases h
  split at h
  · split at h
    · next hfree =>
      split at h
      · next db hdb =>
        obtain rfl := Option.some.inj h
        exact .finished (.inl hentry) (effect_closeQueried hfree hdb)
      · obtain rfl := Option.some.inj h
        exact .resumed (actor_of_call? hentry) rfl (by simp) nofun
      · obtain rfl := Option.some.inj h
        exact .finished (.inl hentry) .quiet
    · cases h
  split at h
  · obtain rfl := Option.some.inj h
    exact .resumed (actor_of_call? hentry) rfl (by simp) nofun
  · obtain rfl := Option.some.inj h
    exact .finished (.inl hentry) .quiet

theorem accepting_processNotification {db : Db} (h : processNotification s.db fields = .ok db) :
    Accepting s (.notify c fields) db (if isPaid fields.trade.tradeStatus
      then ((lockAttemptByOutTradeNo s.db fields.trade.outTradeNo).map
        LockedPaymentAttempt.id).toList ++ s.accepted else s.accepted) := by
  by_cases hpaid : isPaid fields.trade.tradeStatus = true
  · obtain ⟨t, ht, -⟩ := recordNotification_commits h
    rw [if_pos hpaid, ht]
    exact .added rfl hpaid ht h
  · rw [if_neg hpaid]
    refine .same fun c' fields' heq => ?_
    obtain ⟨-, rfl⟩ := Action.notify.inj heq
    rwa [Bool.not_eq_true] at hpaid

theorem shape_notifyStep (h : notifyStep s c fields = some s') :
    Shape settings s (.notify c fields) s' := by
  unfold notifyStep at h
  dsimp only at h
  split at h
  · next hok =>
    rw [Bool.and_eq_true] at hok
    split at h
    · next hclosed =>
      split at h
      · next db hdb =>
        obtain rfl := Option.some.inj h
        refine .kept rfl (effect_recordNotification (.inl rfl) hok.2 (fun ht _ h => ?_) hdb)
          (.same fun c' fields' heq => ?_)
        · exact ⟨.closure hclosed h, handled_notifiedClosure ((if_pos hclosed).trans ht) h⟩
        · obtain ⟨-, rfl⟩ := Action.notify.inj heq
          rw [hclosed]
          rfl
      · obtain rfl := Option.some.inj h
        refine .resumed rfl rfl (fun fields' heq => ?_) nofun
        obtain rfl := Call.recoveringNotification.inj heq
        exact hclosed
      · cases h
    · next hnotClosed =>
      split at h
      · next db hdb =>
        obtain rfl := Option.some.inj h
        refine .kept rfl (effect_recordNotification (.inl rfl) hok.2
          (fun {db₁ t} ht hamount ho => ?_) hdb) (accepting_processNotification hdb)
        split at ho
        · next hpaid =>
          refine ⟨.settled hpaid ho, handled_settleLocked (fun hunpaid => ?_) ho⟩
          rw [Action.settles, ht]
          exact paidAttempt_eq_some hpaid hunpaid (locked_of_outTradeNo ht).2.symm hamount
        · next hpaid =>
          rw [Bool.not_eq_true] at hpaid
          obtain rfl := Except.ok.inj ho
          exact ⟨.ignored hpaid hnotClosed rfl, .nothing⟩
      · cases h
  · cases h

theorem shape_advance {call : Call} (hentry : a.call? = some c) (hcall : s.calls c = some call)
    (h : advance settings s c call a = some s') : Shape settings s a s' := by
  unfold advance at h
  split at h
  · split at h
    · next db hdb =>
      obtain rfl := Option.some.inj h
      obtain rfl := Option.some.inj hentry
      exact .finished (.inl hentry) (.placed rfl hcall hdb)
    · cases h
  · exact shape_checkoutStep hentry hcall h
  · split at h
    · next db hdb =>
      obtain rfl := Option.some.inj h
      obtain rfl := Option.some.inj hentry
      exact .finished (.inl hentry) (.joined rfl hcall hdb)
    · cases h
  · exact shape_membershipStep hentry h
  · split at h
    · next hfree =>
      obtain rfl := Option.some.inj h
      obtain rfl := Option.some.inj hentry
      refine shape_endWith hentry fun db hdb => effect_recordNotification (.inr ⟨hcall, rfl⟩) hfree
        (fun ht _ h => ⟨.review h, handled_reviewInstead ?_ h⟩) hdb
      rw [Action.reverses, hcall]
      exact ht
    · cases h
  · obtain rfl := Option.some.inj hentry
    exact shape_queriedStep hcall h
  · split at h
    · split at h
      · next hfree =>
        obtain rfl := Option.some.inj h
        exact .finished (.inl hentry) (effect_closeExpired hfree)
      · cases h
    · obtain rfl := Option.some.inj h
      exact .finished (.inl hentry) .quiet
  · split at h
    · next hfree =>
      split at h
      · obtain rfl := Option.some.inj h
        exact .resumed (actor_of_call? hentry) rfl (by simp) nofun
      · obtain rfl := Option.some.inj h
        obtain rfl := Option.some.inj hentry
        refine shape_endWith hentry fun db hdb => effect_reversePaid ?_ hfree hdb
        rw [Action.reverses, hcall]
    · cases h
  · split at h
    · next hfree =>
      obtain rfl := Option.some.inj h
      obtain rfl := Option.some.inj hentry
      refine shape_endWith hentry fun db hdb => effect_recoverReversal ?_ hfree hdb
      rw [Action.reverses, hcall]
    · cases h
  · cases h

/-- What a step does is one of the shapes. -/
theorem step_cases (h : step settings s a = some s') : Shape settings s a s' := by
  unfold step at h
  split at h
  · obtain rfl := Option.some.inj h
    exact .kept rfl .quiet (.same (by simp))
  · split at h
    · obtain rfl := Option.some.inj h
      exact .resumed rfl rfl (by simp) nofun
    · cases h
  · split at h
    · obtain rfl := Option.some.inj h
      exact .resumed rfl rfl (by simp) nofun
    · cases h
  · obtain rfl := Option.some.inj h
    exact .finished (.inr rfl) .quiet
  · exact shape_notifyStep h
  · split at h
    · obtain ⟨snapshot, -, rfl⟩ := Option.map_eq_some_iff.mp h
      exact .resumed rfl rfl (by simp) nofun
    · cases h
  · split at h
    · next hfree =>
      obtain rfl := Option.some.inj h
      exact .kept rfl (effect_markPaymentException hfree) (.same (by simp))
    · cases h
  · obtain rfl := Option.some.inj h
    exact .kept rfl (.granted rfl) (.same (by simp))
  · split at h
    · next books hbooks =>
      obtain rfl := Option.some.inj h
      exact .kept rfl (.paidOut rfl hbooks) (.same (by simp))
    · cases h
  · obtain ⟨c, hc, h⟩ := Option.bind_eq_some_iff.mp h
    obtain ⟨call, hcall, h⟩ := Option.bind_eq_some_iff.mp h
    exact shape_advance hc hcall h

end Step

end FractalStudio.Commerce
