import FractalStudio.Commerce.ExactlyOnce

/-!
# The two refund paths

A closed trade of a fulfilled order reaches the tables through its notification or
through the reconciliation. Both reverse a full refund in the same way and fall back to
the same manual review; for a partial refund only the reconciliation revokes the
entitlements. A notification whose canonical text is recorded already does nothing.
-/
namespace FractalStudio.Commerce

open Platform Finance Txn Transition

/-- A transaction, and the one that recovers from `InsufficientCreatorBalanceError`; any
other failure leaves the database as it was. -/
def withRecovery (db : Db) (first recovery : Txn Failure Db) : Db :=
  match first with
  | .ok db' => db'
  | .error .insufficientCreatorBalance =>
    match recovery with
    | .ok db' => db'
    | .error _ => db
  | .error _ => db

/-- A closure handled through `process_notification`. -/
def closeByNotification (db : Db) (fields : SignedFields) : Db :=
  withRecovery db (closedNotification db fields) (recoverClosedNotification db fields)

/-- A closure handled through `reconcile_pending_payment`. -/
def closeByReconciliation (db : Db) (paymentAttemptId : Uuid) (trade : AlipayTrade) : Db :=
  match findAttemptForReconciliation db paymentAttemptId with
  | none => db
  | some snapshot =>
    if trade.outTradeNo ≠ snapshot.outTradeNo || trade.totalAmount ≠ snapshot.amount then db
    else
      match closeQueried db paymentAttemptId trade with
      | .ok (some db') => db'
      | .ok none =>
        withRecovery db (reversePaid db paymentAttemptId (refundOrTotal trade))
          (recoverReversal db paymentAttemptId (refundOrTotal trade))
      | .error _ => db

/-- What the two paths have to agree on. -/
structure Agree (db db' : Db) : Prop where
  orders : db.orders = db'.orders
  attempts : db.attempts = db'.attempts
  reversals : db.reversals = db'.reversals
  entitlements : db.entitlements = db'.entitlements
  ledger : db.books.ledger = db'.books.ledger
  balances : db.books.balances = db'.books.balances

/-- A fulfilled order without a reversal, whose items have been sold. -/
structure Refundable (db : Db) (t : LockedPaymentAttempt) : Prop where
  byId : lockAttemptById db t.id = some t
  byTradeNo : lockAttemptByOutTradeNo db t.outTradeNo = some t
  fulfilled : t.orderStatus = .fulfilled
  succeeded : t.status = .succeeded
  noReversal : db.reversals.find? t.id = none
  journaled : Journaled db.items db.books
  sold : ∀ i ∈ t.items, db.items.find? i.1 = some i.2 ∧ Sold db.books i.1

/-! ## Each path on a fulfilled order -/

theorem newReversal_ok_iff (orderId : Uuid) {amount : Int} :
    (∃ reversal, newReversal orderId amount = .ok reversal) ↔ reversalAmountOk amount = true := by
  unfold newReversal reversalAmountOk
  rw [Bool.and_eq_true, decide_eq_true_eq, decide_eq_true_eq]
  constructor
  · rintro ⟨reversal, h⟩
    split at h
    · next hlow =>
      split at h
      · next hhigh => exact ⟨hlow, hhigh⟩
      · cases h
    · cases h
  · rintro ⟨hlow, hhigh⟩
    exact ⟨⟨orderId, amount, .detected, hlow⟩, by rw [dif_pos hlow, if_pos hhigh]⟩

theorem newReversal_error (orderId : Uuid) {amount : Int}
    (h : reversalAmountOk amount = false) :
    ∃ constraint, newReversal orderId amount = .error (.integrity constraint) := by
  cases hreversal : newReversal orderId amount with
  | ok reversal =>
    rw [(newReversal_ok_iff orderId).mp ⟨reversal, hreversal⟩] at h
    cases h
  | error e =>
    unfold newReversal at hreversal
    split at hreversal
    · split at hreversal
      · cases hreversal
      · exact ⟨_, congrArg Except.error (Except.error.inj hreversal).symm⟩
    · exact ⟨_, congrArg Except.error (Except.error.inj hreversal).symm⟩

section Paths
variable {db : Db} {t : LockedPaymentAttempt} {reversal : Reversal}

theorem createOrGetReversal_new {amount : Int} (hnone : db.reversals.find? t.id = none)
    (h : newReversal t.orderId amount = .ok reversal) :
    createOrGetReversal db t amount = .ok (withReversal db t reversal, reversal) := by
  refine bind_commits.mpr ⟨reversal, h, ?_⟩
  rw [hnone]
  rfl

theorem notifiedClosure_new {trade : AlipayTrade} (hfulfilled : t.orderStatus = .fulfilled)
    (hnone : db.reversals.find? t.id = none)
    (h : newReversal t.orderId (refundOrTotal trade) = .ok reversal) :
    notifiedClosure trade db t = if refundOrTotal trade ≠ t.orderAmount
      then .ok (markReversalManualReview (withReversal db t reversal) t.id t.orderId false)
      else reverseInFull (withReversal db t reversal) t := by
  obtain ⟨hstatus, hamount, -⟩ := newReversal_detected h
  unfold notifiedClosure
  rw [if_neg (by rw [hfulfilled]; simp), if_neg (by rw [hfulfilled]; simp),
    createOrGetReversal_new hnone h]
  show (if reversal.status ≠ .detected then _ else if reversal.amount ≠ t.orderAmount then _ else _)
    = _
  rw [if_neg (by rw [hstatus]; simp), hamount]
  rfl

theorem reverseLocked_new {amount : Int} (hfulfilled : t.orderStatus = .fulfilled)
    (hnone : db.reversals.find? t.id = none) (h : newReversal t.orderId amount = .ok reversal) :
    reverseLocked db t amount = if amount ≠ t.orderAmount
      then .ok (markReversalManualReview (withReversal db t reversal) t.id t.orderId true)
      else reverseInFull (withReversal db t reversal) t := by
  obtain ⟨hstatus, -, -⟩ := newReversal_detected h
  unfold reverseLocked
  rw [if_neg (by rw [hfulfilled]; simp), createOrGetReversal_new hnone h]
  show (if (decide (reversal.status = .applied) || decide (reversal.status = .manualReview)) = true
    then _ else if amount ≠ t.orderAmount then _ else _) = _
  rw [if_neg (by rw [hstatus]; simp)]
  rfl

theorem reviewInstead_new {amount : Int} (hnone : db.reversals.find? t.id = none)
    (h : newReversal t.orderId amount = .ok reversal) :
    reviewInstead db t amount =
      .ok (markReversalManualReview (withReversal db t reversal) t.id t.orderId false) := by
  unfold reviewInstead
  rw [createOrGetReversal_new hnone h]
  rfl

end Paths

section Agreement
variable {db : Db} {t : LockedPaymentAttempt} {fields : SignedFields}

theorem recordNotification_refundable (h : Refundable db t)
    (htrade : fields.trade.outTradeNo = t.outTradeNo) (htotal : fields.trade.totalAmount = t.amount)
    (handle : Db → LockedPaymentAttempt → Txn Failure Db) :
    recordNotification db fields handle = match insertPaymentNotification db t.id fields with
      | none => .ok db
      | some db => handle db t := by
  have hvalid : validateTrade fields.trade t = .ok () := by
    rw [validateTrade, require_eq_ok, htrade, htotal]
    simp
  unfold recordNotification
  rw [htrade, h.byTradeNo]
  show (validateTrade fields.trade t >>= _) = _
  rw [hvalid]
  rfl

theorem closeByNotification_new (h : Refundable db t)
    (hnew : db.notifications.find? fields.canonical = none)
    (htrade : fields.trade.outTradeNo = t.outTradeNo)
    (htotal : fields.trade.totalAmount = t.amount) :
    ∃ n, closeByNotification db fields =
      withRecovery db (notifiedClosure fields.trade (withNotifications db n) t)
        (reviewInstead (withNotifications db n) t (refundOrTotal fields.trade)) := by
  obtain ⟨n, hn⟩ := Table.exists_insert hnew ⟨t.id, fields.trade.tradeStatus⟩
  have hinsert : insertPaymentNotification db t.id fields = some (withNotifications db n) := by
    rw [insertPaymentNotification, hn]
    rfl
  refine ⟨n, ?_⟩
  unfold closeByNotification closedNotification recoverClosedNotification
  rw [recordNotification_refundable h htrade htotal, recordNotification_refundable h htrade htotal,
    hinsert]

/-- A recorded text ends the notification before it looks at the order. -/
theorem closeByNotification_recorded (h : Refundable db t)
    (hold : db.notifications.find? fields.canonical ≠ none)
    (htrade : fields.trade.outTradeNo = t.outTradeNo)
    (htotal : fields.trade.totalAmount = t.amount) : closeByNotification db fields = db := by
  obtain ⟨row, hrow⟩ := Option.ne_none_iff_exists'.mp hold
  have hinsert : insertPaymentNotification db t.id fields = none := by
    rw [insertPaymentNotification, Table.insert?_eq_none hrow]
    rfl
  unfold closeByNotification closedNotification
  rw [recordNotification_refundable h htrade htotal, hinsert]
  rfl

theorem closeByReconciliation_eq (h : Refundable db t)
    (htrade : fields.trade.outTradeNo = t.outTradeNo)
    (htotal : fields.trade.totalAmount = t.amount) :
    closeByReconciliation db t.id fields.trade =
      withRecovery db (reverseLocked db t (refundOrTotal fields.trade))
        (reviewInstead db t (refundOrTotal fields.trade)) := by
  obtain ⟨hl, -⟩ := locked_of_id h.byId
  obtain ⟨p, hp, horder, hstatus, hamount, hno⟩ := hl.attempt
  obtain ⟨o, ho, hostatus, -⟩ := hl.order
  have hsnapshot : findAttemptForReconciliation db t.id = some p := by
    unfold findAttemptForReconciliation
    rw [hp, Option.bind_some, horder, ho, Option.bind_some, if_pos]
    simp [hstatus, hostatus, h.succeeded, h.fulfilled]
  have hqueried : closeQueried db t.id fields.trade = .ok none := by
    unfold closeQueried
    rw [h.byId]
    refine bind_commits.mpr ⟨(), ?_, ?_⟩
    · rw [validateTrade, require_eq_ok, htrade, htotal]
      simp
    · rw [if_neg (by rw [h.fulfilled]; simp)]
      rfl
  unfold closeByReconciliation reversePaid recoverReversal
  rw [hsnapshot, hqueried, h.byId]
  show (if _ then _ else _) = _
  rw [if_neg]
  rw [htrade, htotal, hno, hamount]
  simp

/-- Nobody holds an active licence for an item of the order. -/
def NoneActive (db : Db) (t : LockedPaymentAttempt) : Prop :=
  ∀ e ∈ db.entitlements, e.orderItemId ∈ t.items.map Prod.fst → e.status ≠ .active

theorem revokeEntitlements_eq_self {ids : List Uuid} :
    db.entitlements = (revokeEntitlements db ids).entitlements ↔
      ∀ e ∈ db.entitlements, e.orderItemId ∈ ids → e.status ≠ .active := by
  constructor
  · intro h e he hmem hactive
    have hmap : (revokeEntitlements db ids).entitlements = db.entitlements.map id := by
      rw [List.map_id, ← h]
    have heq := List.map_inj_left.mp hmap e he
    rw [if_pos (List.contains_iff_mem.mpr hmem)] at heq
    have hstatus := congrArg Entitlement.status heq
    rw [id_eq, hactive] at hstatus
    cases hstatus
  · intro h
    refine (List.map_id _).symm.trans (List.map_congr_left fun e he => ?_)
    split
    · next hmem =>
      have hrevoked : e.status = .revoked := by
        have hnot := h e he (List.contains_iff_mem.mp hmem)
        cases hstatus : e.status with
        | active => exact absurd hstatus hnot
        | revoked => rfl
      rw [id_eq, ← hrevoked]
    · rfl

theorem agree_review_iff (hl : Locked db t) (n : Table String PaymentNotification)
    (reversal : Reversal) :
    Agree
      (markReversalManualReview (withReversal (withNotifications db n) t reversal) t.id t.orderId
        false)
      (markReversalManualReview (withReversal db t reversal) t.id t.orderId true) ↔
    NoneActive db t := by
  have hids : (orderItems db t.orderId).map Prod.fst = t.items.map Prod.fst := by rw [hl.items]
  constructor
  · intro h
    have heq : db.entitlements =
        (revokeEntitlements db ((orderItems db t.orderId).map Prod.fst)).entitlements :=
      h.entitlements
    rw [hids] at heq
    exact revokeEntitlements_eq_self.mp heq
  · intro h
    have heq := revokeEntitlements_eq_self.mpr h
    rw [← hids] at heq
    exact ⟨rfl, rfl, rfl, heq, rfl, rfl⟩

theorem Agree.refl (db : Db) : Agree db db := ⟨rfl, rfl, rfl, rfl, rfl, rfl⟩

theorem agree_reverseInFull (db : Db) (t : LockedPaymentAttempt)
    (n : Table String PaymentNotification) (reversal : Reversal) :
    Agree
      (withRecovery db (reverseInFull (withReversal (withNotifications db n) t reversal) t)
        (.ok (markReversalManualReview (withReversal (withNotifications db n) t reversal) t.id
          t.orderId false)))
      (withRecovery db (reverseInFull (withReversal db t reversal) t)
        (.ok (markReversalManualReview (withReversal db t reversal) t.id t.orderId false))) := by
  have hsame : reverseSales (withReversal (withNotifications db n) t reversal).items
      (withReversal (withNotifications db n) t reversal).books t.items =
        reverseSales (withReversal db t reversal).items (withReversal db t reversal).books t.items :=
    rfl
  unfold reverseInFull
  rw [hsame]
  cases reverseSales (withReversal db t reversal).items (withReversal db t reversal).books t.items with
  | ok books => exact ⟨rfl, rfl, rfl, rfl, rfl, rfl⟩
  | error e =>
    cases e with
    | insufficientCreatorBalance => exact ⟨rfl, rfl, rfl, rfl, rfl, rfl⟩
    | http _ _ => exact .refl db
    | ledgerInvariant _ => exact .refl db
    | integrity _ => exact .refl db
    | invariant _ => exact .refl db

end Agreement

theorem createOrGetReversal_error (db : Db) (t : LockedPaymentAttempt) {amount : Int}
    (h : reversalAmountOk amount = false) :
    ∃ constraint, createOrGetReversal db t amount = .error (.integrity constraint) := by
  obtain ⟨constraint, herror⟩ := newReversal_error t.orderId h
  exact ⟨constraint, bind_fails.mpr (.inl herror)⟩

theorem reverseLocked_unrecordable {amount : Int} (hfulfilled : t.orderStatus = .fulfilled)
    (h : reversalAmountOk amount = false) :
    ∃ constraint, reverseLocked db t amount = .error (.integrity constraint) := by
  obtain ⟨constraint, hold⟩ := createOrGetReversal_error db t h
  refine ⟨constraint, ?_⟩
  unfold reverseLocked
  rw [if_neg (not_not.mpr hfulfilled), hold]
  rfl

/-- On a closure of a fulfilled order whose text is new the two paths agree exactly when the amount
cannot be recorded at all, or is the whole amount of the order, or nobody holds an active licence for
its items. -/
theorem agree_iff_of_new (h : Refundable db t)
    (hnew : db.notifications.find? fields.canonical = none)
    (htrade : fields.trade.outTradeNo = t.outTradeNo)
    (htotal : fields.trade.totalAmount = t.amount) :
    Agree (closeByNotification db fields) (closeByReconciliation db t.id fields.trade) ↔
      reversalAmountOk (refundOrTotal fields.trade) = false ∨
      refundOrTotal fields.trade = t.orderAmount ∨ NoneActive db t := by
  obtain ⟨n, hnotified⟩ := closeByNotification_new h hnew htrade htotal
  have hl := (locked_of_id h.byId).1
  have hnone : (withNotifications db n).reversals.find? t.id = none := h.noReversal
  have hpending : t.orderStatus ≠ .pendingPayment := by
    rw [h.fulfilled]
    simp
  rw [hnotified, closeByReconciliation_eq h htrade htotal]
  cases hok : reversalAmountOk (refundOrTotal fields.trade) with
  | false =>
    obtain ⟨constraint, hfails⟩ := createOrGetReversal_error (withNotifications db n) t hok
    obtain ⟨constraint', hreverse⟩ :=
      @reverseLocked_unrecordable db t _ h.fulfilled hok
    have hnotify : notifiedClosure fields.trade (withNotifications db n) t =
        .error (.integrity constraint) := by
      unfold notifiedClosure
      rw [if_neg hpending, if_neg (not_not.mpr h.fulfilled), hfails]
      rfl
    rw [hnotify, hreverse]
    exact ⟨fun _ => .inl rfl, fun _ => .refl db⟩
  | true =>
    obtain ⟨reversal, hreversal⟩ := (newReversal_ok_iff t.orderId).mpr hok
    rw [notifiedClosure_new h.fulfilled hnone hreversal,
      reverseLocked_new h.fulfilled h.noReversal hreversal, reviewInstead_new hnone hreversal,
      reviewInstead_new h.noReversal hreversal]
    by_cases hfull : refundOrTotal fields.trade = t.orderAmount
    · rw [if_neg (not_not.mpr hfull), if_neg (not_not.mpr hfull)]
      exact ⟨fun _ => .inr (.inl hfull), fun _ => agree_reverseInFull db t n reversal⟩
    · rw [if_pos hfull, if_pos hfull]
      refine (agree_review_iff hl n reversal).trans ⟨fun hnone => .inr (.inr hnone), ?_⟩
      rintro (hlow | heq | hnone)
      · cases hlow
      · exact absurd heq hfull
      · exact hnone

/-- The reversal of sold items fails for lack of balance only. -/
theorem reverseSales_fails (h : Refundable db t) {e : Failure}
    (hfails : reverseSales db.items db.books t.items = .error e) : e = .insufficientCreatorBalance := by
  refine each_fails (I := fun b => Journaled db.items b ∧ ∀ i ∈ t.items, Sold b i.1) ?_ ?_
    ⟨h.journaled, fun i hi => (h.sold i hi).2⟩ hfails
  · intro i _ b b' hb hstep
    exact ⟨journaled_reverseSale hb.1 hstep,
      fun j hj => (hb.2 j hj).mono (ledger_reverseSale hstep)⟩
  · intro i hi b hb hstep
    exact reverseSale_fails hb.1 (h.sold i hi).1 (hb.2 i hi) hstep

theorem reversals_review (revoke : Bool) (reversal : Reversal) :
    (markReversalManualReview (withReversal db t reversal) t.id t.orderId revoke).reversals.find?
      t.id ≠ none := by
  have hmodified : (markReversalManualReview (withReversal db t reversal) t.id t.orderId
      revoke).reversals = (db.reversals.insertIfAbsent t.id reversal).modify t.id
        fun r => if r.status = .detected then { r with status := .manualReview } else r := by
    cases revoke <;> rfl
  rw [hmodified, Table.find?_modify_self, Table.find?_insertIfAbsent, if_pos rfl]
  cases db.reversals.find? t.id <;> simp

/-- A closure whose text is recorded changes nothing where the reconciliation leaves a reversal,
unless the amount cannot be recorded. -/
theorem agree_iff_of_recorded (h : Refundable db t)
    (hold : db.notifications.find? fields.canonical ≠ none)
    (htrade : fields.trade.outTradeNo = t.outTradeNo)
    (htotal : fields.trade.totalAmount = t.amount) :
    Agree (closeByNotification db fields) (closeByReconciliation db t.id fields.trade) ↔
      reversalAmountOk (refundOrTotal fields.trade) = false := by
  rw [closeByNotification_recorded h hold htrade htotal, closeByReconciliation_eq h htrade htotal]
  cases hok : reversalAmountOk (refundOrTotal fields.trade) with
  | false =>
    obtain ⟨constraint, hreverse⟩ := @reverseLocked_unrecordable db t _ h.fulfilled hok
    rw [hreverse]
    exact ⟨fun _ => rfl, fun _ => .refl db⟩
  | true =>
    refine ⟨fun hagree => ?_, nofun⟩
    have hnone := hagree.reversals ▸ h.noReversal
    obtain ⟨reversal, hreversal⟩ := (newReversal_ok_iff t.orderId).mpr hok
    rw [reverseLocked_new h.fulfilled h.noReversal hreversal,
      reviewInstead_new h.noReversal hreversal] at hnone
    split at hnone
    · exact absurd hnone (reversals_review true reversal)
    · unfold reverseInFull at hnone
      cases hreverse : reverseSales (withReversal db t reversal).items
          (withReversal db t reversal).books t.items with
      | ok books =>
        rw [hreverse] at hnone
        refine absurd hnone ?_
        show ((db.reversals.insertIfAbsent t.id reversal).modify t.id _).find? t.id ≠ none
        rw [Table.find?_modify_self, Table.find?_insertIfAbsent, if_pos rfl]
        cases db.reversals.find? t.id <;> simp
      | error e =>
        obtain rfl := reverseSales_fails h hreverse
        rw [hreverse] at hnone
        exact absurd hnone (reversals_review false reversal)

/-! ## What a run keeps of closures -/

def OrderEnded (db : Db) (id : Uuid) : Prop :=
  ∃ p o, db.attempts.find? id = some p ∧ db.orders.find? p.orderId = some o ∧
    (o.status = .closed ∨ o.status = .paymentException)

/-- Whoever's payment has a reversal has an order that ended. -/
def ReversalsEnded (db : Db) : Prop :=
  ∀ id reversal, db.reversals.find? id = some reversal → OrderEnded db id

/-- The items of a fulfilled order have been sold. -/
def ItemsSold (db : Db) : Prop :=
  ∀ id i o, db.items.find? id = some i → db.orders.find? i.orderId = some o →
    o.status = .fulfilled → Sold db.books id

theorem OrderEnded.mono {db db' : Db} {orderFree attemptFree : Uuid → Prop} {id : Uuid}
    (hrows : RowsMove db db' orderFree attemptFree) (h : OrderEnded db id) : OrderEnded db' id := by
  refine hrows.orderOf (P := fun status => status = .closed ∨ status = .paymentException) ?_ h
  intro status status' hstatus hmove
  cases hmove with
  | fulfilled => rcases hstatus with h | h <;> cases h
  | closed => exact .inl rfl
  | excepted => exact .inr rfl

section Handlers
variable {pays reverses : Prop} {db db' : Db} {t : LockedPaymentAttempt}

theorem ended_of_handled (hl : Locked db t) (h : Handled pays reverses t db db') {status : OrderStatus}
    (horders : db'.orders = db.orders.modify t.orderId fun o => { o with status })
    (hstatus : status = .closed ∨ status = .paymentException) : OrderEnded db' t.id := by
  have hrows : RowsMove db db' (fun _ => True) fun _ => True :=
    rowsMove_of_handled hl trivial trivial h
  obtain ⟨p, hp, hporder, -⟩ := hl.attempt
  obtain ⟨o, ho, -⟩ := hl.order
  obtain ⟨p', hp', horder, -⟩ := hrows.attempt _ p hp
  refine ⟨p', { o with status }, hp', ?_, hstatus⟩
  rw [horder, hporder, horders, Table.find?_modify_self, ho]
  rfl

theorem find?_withReversal (reversal : Reversal) {id : Uuid} (hid : id ≠ t.id) :
    (withReversal db t reversal).reversals.find? id = db.reversals.find? id := by
  show (db.reversals.insertIfAbsent t.id reversal).find? id = _
  rw [Table.find?_insertIfAbsent, if_neg hid]

theorem handled_reversals (hl : Locked db t) (h : Handled pays reverses t db db') (id : Uuid) :
    db'.reversals.find? id = db.reversals.find? id ∨ id = t.id ∧ OrderEnded db' t.id := by
  by_cases hid : id = t.id
  · cases h with
    | nothing => exact .inl rfl
    | settled _ _ _ =>
      left
      unfold paid
      dsimp only
      split <;> rfl
    | closed _ => exact .inl rfl
    | reversed hreverses hstatus hreversal hbooks =>
      have hdone : Handled pays reverses t db _ := .reversed hreverses hstatus hreversal hbooks
      exact .inr ⟨hid, ended_of_handled hl hdone rfl (.inr rfl)⟩
    | reviewed revoke hreverses hreversal =>
      have hdone : Handled pays reverses t db _ := .reviewed revoke hreverses hreversal
      exact .inr ⟨hid, ended_of_handled hl hdone (markReversalManualReview_orders _ _ _ _) (.inr rfl)⟩
    | excepted _ => exact .inl rfl
  · left
    cases h with
    | nothing => rfl
    | settled _ _ _ =>
      unfold paid
      dsimp only
      split <;> rfl
    | closed _ => rfl
    | reversed _ _ _ _ =>
      refine (Table.find?_modify_ne _ _ hid).trans ?_
      exact find?_withReversal _ hid
    | reviewed revoke _ _ =>
      cases revoke <;> exact (Table.find?_modify_ne _ _ hid).trans (find?_withReversal _ hid)
    | excepted _ => rfl

theorem itemsSold_of_modify {orderId : Uuid} {status : OrderStatus} (hd : ItemsSold db)
    (hitems : db'.items = db.items) (hledger : db.books.ledger <+: db'.books.ledger)
    (horders : db'.orders = db.orders.modify orderId fun o => { o with status })
    (hsold : status = .fulfilled → ∀ id i, db.items.find? id = some i → i.orderId = orderId →
      Sold db'.books id) : ItemsSold db' := by
  intro id i o hi ho hfulfilled
  rw [hitems] at hi
  rw [horders] at ho
  by_cases hid : i.orderId = orderId
  · rw [hid, Table.find?_modify_self] at ho
    obtain ⟨o, -, rfl⟩ := Option.map_eq_some_iff.mp ho
    exact hsold hfulfilled id i hi hid
  · rw [Table.find?_modify_ne _ _ hid] at ho
    exact (hd id i o hi ho hfulfilled).mono hledger

/-- The sale of all items of an order leaves each of them sold. -/
theorem recordSales_sold {items : Table Uuid OrderItem} {b b' : Books} {l : List (Uuid × OrderItem)}
    (h : recordSales items b l = .ok b') :
    b.ledger <+: b'.ledger ∧ ∀ i ∈ l, Sold b' i.1 := by
  induction l generalizing b with
  | nil =>
    obtain rfl := Except.ok.inj h
    exact ⟨List.prefix_rfl, nofun⟩
  | cons i l ih =>
    obtain ⟨m, hm, hrest⟩ := each_cons_commits.mp h
    obtain ⟨hfirst, hsold⟩ := recordSale_sold hm
    obtain ⟨hledger, hall⟩ := ih hrest
    refine ⟨hfirst.trans hledger, fun j hj => ?_⟩
    rcases List.mem_cons.mp hj with rfl | hj
    · exact hsold.mono hledger
    · exact hall j hj

theorem itemsSold_of_handled (hl : Locked db t) (hd : ItemsSold db)
    (h : Handled pays reverses t db db') : ItemsSold db' := by
  have hitems := (sameItems_of_handled h).items
  cases h with
  | nothing => exact hd
  | @settled tradeNo books _ _ hbooks =>
    obtain ⟨hledger, hsold⟩ := recordSales_sold hbooks
    have hpaid : (paid db t tradeNo books).books = books := by
      unfold paid
      dsimp only
      split <;> rfl
    refine itemsSold_of_modify hd hitems (by rw [hpaid]; exact hledger) (paid_orders _ _ _ _) ?_
    intro _ id i hi hid
    rw [hpaid]
    exact hsold (id, i) (by rw [hl.items]; exact mem_orderItems.mpr ⟨hi, hid⟩)
  | closed _ => exact itemsSold_of_modify hd rfl List.prefix_rfl rfl (by rintro ⟨⟩)
  | @reversed _ _ books _ _ _ hbooks =>
    have hledger : db.books.ledger <+: books.ledger :=
      each_invariant (I := fun b => db.books.ledger <+: b.ledger)
        (fun _ _ _ _ hb hstep => hb.trans (ledger_reverseSale hstep)) List.prefix_rfl hbooks
    exact itemsSold_of_modify hd rfl hledger rfl (by rintro ⟨⟩)
  | reviewed revoke _ _ =>
    refine itemsSold_of_modify hd hitems ?_ (markReversalManualReview_orders _ _ _ _)
      (by rintro ⟨⟩)
    cases revoke <;> exact List.prefix_rfl
  | excepted _ => exact itemsSold_of_modify hd rfl List.prefix_rfl rfl (by rintro ⟨⟩)

/-- A new order waits for payment, so it has nothing to be sold yet. -/
theorem itemsSold_of_newPayment {buyerId orderId attemptId : Uuid} {outTradeNo : String}
    (hd : ItemsSold db) (hp : NewPayment db db' buyerId orderId attemptId outTradeNo)
    (hbooks : db'.books = db.books)
    (hitems : ∀ id i, db'.items.find? id = some i → db.items.find? id = some i ∨ i.orderId = orderId) :
    ItemsSold db' := by
  obtain ⟨o', -, -, hpending, -, -, -, -, horders, -⟩ := hp.inserted
  intro id i o hi ho hfulfilled
  rw [hbooks]
  rw [Table.find?_insert horders] at ho
  split at ho
  · obtain rfl := Option.some.inj ho
    rw [hpending] at hfulfilled
    cases hfulfilled
  · next hne => exact hd id i o ((hitems id i hi).resolve_right hne) ho hfulfilled

theorem itemsSold_closeListed (attemptIds orderIds : List Uuid) (hd : ItemsSold db) :
    ItemsSold (closeListed db attemptIds orderIds) := by
  intro id i o hi ho hfulfilled
  rw [find?_closeListed_orders] at ho
  obtain ⟨o', hold, rfl⟩ := Option.map_eq_some_iff.mp ho
  split at hfulfilled
  · cases hfulfilled
  · exact hd id i o' hi hold hfulfilled

end Handlers

section Step
variable {settings : Settings} {s s' : State} {a : Action} {db : Db}

/-- A new reversal belongs to an order that has ended. -/
theorem reversal_of_effect (h : Effect settings s a db) {id : Uuid} {reversal : Reversal}
    (hfind : db.reversals.find? id = some reversal) :
    s.db.reversals.find? id = some reversal ∨ OrderEnded db id := by
  cases h with
  | quiet => exact .inl hfind
  | @handled t n _ hl _ hhandled _ =>
    rcases handled_reversals (hl.withNotifications n) hhandled id with heq | ⟨rfl, hended⟩
    · rw [heq] at hfind
      exact .inl hfind
    · exact .inr hended
  | placed _ _ hplaced =>
    rw [(placeOrder_commits hplaced).frame.2.1] at hfind
    exact .inl hfind
  | joined _ _ hjoined =>
    rw [(createMembershipOrder_commits hjoined).frame.2.2.1] at hfind
    exact .inl hfind
  | granted _ => exact .inl hfind
  | paidOut _ _ => exact .inl hfind

/-- Every effect keeps the orders with a reversal ended. -/
theorem reversalsEnded_of_effect (hs : Sound s) (hc : ReversalsEnded s.db)
    (h : Effect settings s a db) : ReversalsEnded db := by
  intro id reversal hfind
  rcases reversal_of_effect h hfind with hold | hended
  · exact (hc id reversal hold).mono (rowsMove_of_effect hs.phases h)
  · exact hended

theorem reversalsEnded_reachable (hr : Reach init (step settings) Free s) : ReversalsEnded s.db := by
  have hinv : Sound s ∧ ReversalsEnded s.db := by
    apply hr.invariant
    · rintro s rfl
      exact ⟨sound_of_init rfl, nofun⟩
    · rintro s a s' ⟨hs, hc⟩ - hstep
      exact ⟨sound_of_step hs hstep, reversalsEnded_of_effect hs hc (effect_of_step hstep)⟩
  exact hinv.2

/-- Every effect keeps the items of fulfilled orders sold. -/
theorem itemsSold_of_effect (hd : ItemsSold s.db) (h : Effect settings s a db) : ItemsSold db := by
  cases h with
  | quiet => exact hd
  | @handled t n _ hl _ hhandled _ =>
    have hbefore : ItemsSold (withNotifications s.db n) := hd
    exact itemsSold_of_handled (hl.withNotifications n) hbefore hhandled
  | @placed c buyerId offer expiresAt attemptIds orderIds _ _ _ _ _ _ _ hplaced =>
    have hp := placeOrder_commits hplaced
    obtain ⟨i, horder, -, -, hitems⟩ := hp.item
    refine itemsSold_of_newPayment (itemsSold_closeListed attemptIds orderIds hd) hp.payment
      hp.frame.2.2.2.1 fun id found hfound => ?_
    rw [Table.find?_insert hitems] at hfound
    split at hfound
    · obtain rfl := Option.some.inj hfound
      exact .inr horder
    · exact .inl hfound
  | joined _ _ hjoined =>
    have hj := createMembershipOrder_commits hjoined
    refine itemsSold_of_newPayment hd hj.payment hj.frame.2.2.2.2.1 fun id found hfound => .inl ?_
    rw [hj.frame.1] at hfound
    exact hfound
  | granted _ => exact hd
  | paidOut _ hbooks =>
    exact fun id i o hi ho hfulfilled => (hd id i o hi ho hfulfilled).mono (ledger_payout hbooks)

theorem itemsSold_reachable (hr : Reach init (step settings) Free s) : ItemsSold s.db := by
  apply hr.invariant
  · rintro s rfl id i o hi
    cases hi
  · intro s a s' hs _ hstep
    exact itemsSold_of_effect hs (effect_of_step hstep)

theorem lockAttemptByOutTradeNo_eq {t : LockedPaymentAttempt} (hs : SoundDb db)
    (h : lockAttemptById db t.id = some t) : lockAttemptByOutTradeNo db t.outTradeNo = some t := by
  obtain ⟨p, hp, ht⟩ := Option.bind_eq_some_iff.mp h
  obtain ⟨-, -, hno⟩ := locked_of_find hp ht
  have hmem : (t.id, p) ∈ db.attempts.select fun _ p => p.outTradeNo = t.outTradeNo :=
    Table.mem_select.mpr ⟨hp, by simpa using hno.symm⟩
  unfold lockAttemptByOutTradeNo
  cases hhead : (db.attempts.select fun _ p => p.outTradeNo = t.outTradeNo).head? with
  | none =>
    rw [List.head?_eq_none_iff] at hhead
    rw [hhead] at hmem
    cases hmem
  | some r =>
    obtain ⟨id, q⟩ := r
    obtain ⟨hq, hqno⟩ := Table.mem_select.mp (List.mem_of_mem_head? hhead)
    have hid : id = t.id := by
      apply hs.tradeNo id t.id q p hq hp
      rw [of_decide_eq_true hqno, hno]
    subst hid
    rw [hp] at hq
    obtain rfl := Option.some.inj hq
    exact ht

/-- A fulfilled trade can be refunded in every reachable state. -/
theorem refundable_of_reachable {t : LockedPaymentAttempt}
    (hr : Reach init (step settings) Free s) (ht : lockAttemptById s.db t.id = some t)
    (hfulfilled : t.orderStatus = .fulfilled) : Refundable s.db t := by
  have hs := (sound_reachable hr).db
  obtain ⟨p, hp, hporder, -⟩ := (locked_of_id ht).1.attempt
  obtain ⟨o, ho, hostatus, -⟩ := (locked_of_id ht).1.order
  refine ⟨ht, lockAttemptByOutTradeNo_eq hs ht, hfulfilled,
    hs.succeeded (locked_of_id ht).1 hfulfilled, ?_, journaled_reachable hr, ?_⟩
  · cases hfind : s.db.reversals.find? t.id with
    | none => rfl
    | some reversal =>
      -- a reversed payment's order has ended, and this one has not
      obtain ⟨p', o', hp', ho', hstatus⟩ := reversalsEnded_reachable hr _ reversal hfind
      rw [hp] at hp'
      obtain rfl := Option.some.inj hp'
      rw [hporder, ho] at ho'
      obtain rfl := Option.some.inj ho'
      rw [hostatus, hfulfilled] at hstatus
      rcases hstatus with h | h <;> cases h
  · rintro ⟨id, i⟩ hi
    rw [(locked_of_id ht).1.items] at hi
    obtain ⟨hitem, hid⟩ := mem_orderItems.mp hi
    exact ⟨hitem, itemsSold_reachable hr id i o hitem (by rw [hid]; exact ho)
      (hostatus.trans hfulfilled)⟩

end Step

/-- On any closure of a fulfilled order ever reached the two paths agree exactly when the amount
cannot be recorded at all, or the closure's text is new and the refund is in full or finds no active
licence. -/
theorem refund_paths_agree_iff {settings : Settings} {s : State}
    (hr : Reach init (step settings) Free s) {id : Uuid} {t : LockedPaymentAttempt}
    (ht : lockAttemptById s.db id = some t) (hfulfilled : t.orderStatus = .fulfilled)
    {fields : SignedFields} (htrade : fields.trade.outTradeNo = t.outTradeNo)
    (htotal : fields.trade.totalAmount = t.amount) :
    Agree (closeByNotification s.db fields) (closeByReconciliation s.db id fields.trade) ↔
      reversalAmountOk (refundOrTotal fields.trade) = false ∨
      s.db.notifications.find? fields.canonical = none ∧
        (refundOrTotal fields.trade = t.orderAmount ∨ NoneActive s.db t) := by
  obtain ⟨-, rfl⟩ := locked_of_id ht
  have h := refundable_of_reachable hr ht hfulfilled
  by_cases hnew : s.db.notifications.find? fields.canonical = none
  · rw [agree_iff_of_new h hnew htrade htotal, and_iff_right hnew]
  · rw [agree_iff_of_recorded h hnew htrade htotal, or_iff_left fun hboth => hnew hboth.1]

def paidPurchase : List Action :=
  purchase 1 8 poster "fs1" 21 31 11 ++ [.notify 2 (success "fs1" "1")]

/-- A paid purchase is refunded in full. -/
theorem refund_paths_agree_in_full :
    ∃ s, Reach init (step shop) Free s ∧ Agree (closeByNotification s.db (closure "fs1" "1" none))
      (closeByReconciliation s.db 11 (closure "fs1" "1" none).trade) := by
  have hrun : (exec (step shop) emptyState paidPurchase).any
      (fun s => s.db.notifications.find? (closure "fs1" "1" none).canonical = none &&
        (lockAttemptById s.db 11).any fun t => t.orderStatus = .fulfilled &&
          t.outTradeNo = "fs1" && t.amount = 1000 && t.orderAmount = 1000) = true := by
    decide +kernel
  obtain ⟨s, hexec, hs⟩ := (Option.any_eq_true _ _).mp hrun
  rw [Bool.and_eq_true, decide_eq_true_eq] at hs
  obtain ⟨t, ht, hfields⟩ := (Option.any_eq_true _ _).mp hs.2
  simp only [Bool.and_eq_true, decide_eq_true_eq] at hfields
  obtain ⟨⟨⟨hfulfilled, hno⟩, hamount⟩, htotal⟩ := hfields
  have hr : Reach init (step shop) Free s := reach_of_exec rfl hexec
  exact ⟨s, hr, (refund_paths_agree_iff hr ht hfulfilled hno.symm hamount.symm).mpr
    (.inr ⟨hs.1, .inl htotal.symm⟩)⟩

/-- Four yuan of a paid purchase at ten are refunded: only the reconciliation takes the
licence back. -/
theorem refund_paths_disagree :
    ∃ s t, Reach init (step shop) Free s ∧ lockAttemptById s.db 11 = some t ∧
      t.orderStatus = .fulfilled ∧ t.outTradeNo = "fs1" ∧ t.amount = 1000 ∧
      ¬ Agree (closeByNotification s.db (closure "fs1" "1" (some 400)))
        (closeByReconciliation s.db 11 (closure "fs1" "1" (some 400)).trade) := by
  have hrun : (exec (step shop) emptyState paidPurchase).any
      (fun s => ((lockAttemptById s.db 11).any fun t => t.orderStatus = .fulfilled &&
        t.outTradeNo = "fs1" && t.amount = 1000) &&
        (closeByNotification s.db (closure "fs1" "1" (some 400))).entitlements ≠
          (closeByReconciliation s.db 11 (closure "fs1" "1" (some 400)).trade).entitlements) =
      true := by
    decide +kernel
  obtain ⟨s, hexec, hs⟩ := (Option.any_eq_true _ _).mp hrun
  rw [Bool.and_eq_true, decide_eq_true_eq] at hs
  obtain ⟨t, ht, hfields⟩ := (Option.any_eq_true _ _).mp hs.1
  simp only [Bool.and_eq_true, decide_eq_true_eq] at hfields
  obtain ⟨⟨hfulfilled, hno⟩, hamount⟩ := hfields
  exact ⟨s, t, reach_of_exec rfl hexec, ht, hfulfilled, hno, hamount,
    fun hagree => hs.2 hagree.entitlements⟩

/-- In every state reached an order has one payment attempt at most, which fits it, and has
ended once that is reversed. -/
theorem orders_fit_payments {settings : Settings} {s : State}
    (hr : Reach init (step settings) Free s) :
    (∀ id p, s.db.attempts.find? id = some p → Payable s.db p) ∧
    (∀ id id' p p', s.db.attempts.find? id = some p → s.db.attempts.find? id' = some p' →
      p.orderId = p'.orderId → id = id') ∧
    ∀ id reversal, s.db.reversals.find? id = some reversal → OrderEnded s.db id :=
  have hs := (sound_reachable hr).db
  ⟨hs.attempt, hs.oneAttempt, reversalsEnded_reachable hr⟩

/-- The refunded order has ended. -/
theorem orders_fit_payments_refunded :
    ∃ s, Reach init (step shop) Free s ∧ (s.db.reversals.find? 11).isSome ∧
      OrderEnded s.db 11 := by
  have hrun : (exec (step shop) emptyState
      (paidPurchase ++ [.notify 2 (closure "fs1" "1" none)])).any
        (fun s => (s.db.reversals.find? 11).isSome) = true := by
    decide +kernel
  obtain ⟨s, hexec, hs⟩ := (Option.any_eq_true _ _).mp hrun
  obtain ⟨reversal, hfind⟩ := Option.isSome_iff_exists.mp hs
  have hr : Reach init (step shop) Free s := reach_of_exec rfl hexec
  exact ⟨s, hr, hs, (orders_fit_payments hr).2.2 11 reversal hfind⟩

end FractalStudio.Commerce
