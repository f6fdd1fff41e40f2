import FractalStudio.Commerce.Sound

/-!
# Acknowledged payments

A success notification that is acknowledged settles its order or finds it settled, with two
exceptions. A closed order stays closed: `mark_settled` returns `False` and the notification is
acknowledged all the same; a checkout closes the buyer's earlier order without telling the provider,
so a payment for it can still arrive. And a notification whose canonical text was recorded before,
perhaps for other fields, is acknowledged unread.
-/
namespace FractalStudio.Commerce

open Platform Finance Txn Transition

/-- The order of an attempt is paid for, or with an operator. -/
def Accounted (db : Db) (id : Uuid) : Prop :=
  ∃ p o, db.attempts.find? id = some p ∧ db.orders.find? p.orderId = some o ∧
    (o.status = .fulfilled ∨ o.status = .paymentException)

/-- A success notification finds its order not closed and, if that waits for payment, no record of
its own canonical text. -/
def orderOpen (s : State) : Action → Bool
  | .notify _ fields => !isPaid fields.trade.tradeStatus ||
      (lockAttemptByOutTradeNo s.db fields.trade.outTradeNo).all fun t => t.orderStatus ≠ .closed &&
        (t.orderStatus ≠ .pendingPayment || (s.db.notifications.find? fields.canonical).isNone)
  | _ => true

section Step
variable {settings : Settings} {s s' : State} {a : Action}

theorem Accounted.mono {db db' : Db} {orderFree attemptFree : Uuid → Prop} {id : Uuid}
    (hrows : RowsMove db db' orderFree attemptFree) (h : Accounted db id) : Accounted db' id := by
  refine hrows.orderOf (P := fun status => status = .fulfilled ∨ status = .paymentException) ?_ h
  intro status status' hstatus hmove
  cases hmove with
  | fulfilled => exact .inl rfl
  | closed => rcases hstatus with h | h <;> cases h
  | excepted => exact .inr rfl

/-- A locked order that neither waits for payment nor is closed is accounted for. -/
theorem Accounted.of_locked {db : Db} {t : LockedPaymentAttempt} (hl : Locked db t)
    (hopen : t.orderStatus ≠ .closed) (hpaid : t.orderStatus ≠ .pendingPayment) :
    Accounted db t.id := by
  obtain ⟨p, hp, hporder, -⟩ := hl.attempt
  obtain ⟨o, ho, hostatus, -⟩ := hl.order
  refine ⟨p, o, hp, by rw [hporder]; exact ho, ?_⟩
  rw [hostatus]
  cases hstatus : t.orderStatus with
  | pendingPayment => exact absurd hstatus hpaid
  | fulfilled => exact .inl rfl
  | closed => exact absurd hstatus hopen
  | paymentException => exact .inr rfl

/-- Settling leaves an order that was not closed accounted for. -/
theorem accounted_of_settleLocked {db db' : Db} {t : LockedPaymentAttempt} {trade : AlipayTrade}
    (hs : SoundDb db) (hl : Locked db t) (hopen : t.orderStatus ≠ .closed)
    (h : settleLocked db t trade = .ok db') : Accounted db' t.id := by
  rcases settleLocked_commits h with ⟨hnot, rfl⟩ | ⟨-, books, -, rfl⟩
  · refine .of_locked hl hopen fun hpending => ?_
    rw [hs.unpaid hl hpending] at hnot
    cases hnot
  · obtain ⟨p, hp, hporder, -⟩ := hl.attempt
    obtain ⟨o, ho, -⟩ := hl.order
    refine ⟨{ p with status := .succeeded, alipayTradeNo := some trade.tradeNo },
      { o with status := .fulfilled }, ?_, ?_, .inl rfl⟩
    · rw [paid_attempts, Table.find?_modify_self, hp]
      rfl
    · show (paid db t trade.tradeNo books).orders.find? p.orderId = _
      rw [paid_orders, hporder, Table.find?_modify_self, ho]
      rfl

/-- An acknowledged success notification that meets the condition leaves its order accounted for. -/
theorem accounted_of_processNotification {c : CallId} {fields : SignedFields}
    {t : LockedPaymentAttempt} {db : Db} (hs : Sound s)
    (hpaid : isPaid fields.trade.tradeStatus = true)
    (ht : lockAttemptByOutTradeNo s.db fields.trade.outTradeNo = some t)
    (hopen : orderOpen s (.notify c fields) = true) (h : processNotification s.db fields = .ok db) :
    Accounted db t.id := by
  obtain ⟨hl, -⟩ := locked_of_outTradeNo ht
  simp only [orderOpen, hpaid, ht, Option.all_some, Bool.not_true, Bool.false_or, Bool.and_eq_true,
    Bool.or_eq_true, decide_eq_true_eq] at hopen
  obtain ⟨hclosed, hnew⟩ := hopen
  obtain ⟨t', ht', -, ⟨⟨row, hrow⟩, rfl⟩ | ⟨n, -, h⟩⟩ := recordNotification_commits h
  · refine .of_locked hl hclosed (hnew.resolve_right ?_)
    rw [hrow]
    simp
  · rw [ht] at ht'
    obtain rfl := Option.some.inj ht'
    rw [if_pos hpaid] at h
    exact accounted_of_settleLocked (hs.db.withNotifications n) (hl.withNotifications n) hclosed h

/-- What a step adds to the acknowledged payments is accounted for, and the others stay so. -/
theorem accounted_of_step (hs : Sound s) (hold : ∀ id ∈ s.accepted, Accounted s.db id)
    (hopen : orderOpen s a = true) (h : step settings s a = some s') :
    ∀ id ∈ s'.accepted, Accounted s'.db id := by
  have hkept : ∀ id ∈ s.accepted, Accounted s'.db id := fun id hid =>
    (hold id hid).mono (rowsMove_of_effect hs.phases (effect_of_step h))
  cases step_cases h with
  | @kept db now accepted _ _ haccepting =>
    cases haccepting with
    | same _ => exact hkept
    | added ha hpaid ht hcommit =>
      subst ha
      intro id hid
      rcases List.mem_cons.mp hid with rfl | hid
      · exact accounted_of_processNotification hs hpaid ht hopen hcommit
      · exact hkept id hid
  | finished _ _ => exact hkept
  | resumed _ _ _ _ => exact hkept
  | pendingRead _ _ => exact hkept
  | attemptsLocked _ _ _ => exact hkept
  | ordersRead _ _ => exact hkept
  | ordersLocked _ _ _ => exact hkept

end Step

/-- In every run whose success notifications meet the condition, every acknowledged payment's order
is fulfilled or with an operator, from then on. -/
theorem accepted_payments_accounted {settings : Settings} {s : State}
    (hr : Reach init (step settings) (fun s a => orderOpen s a = true) s) {id : Uuid}
    (hid : id ∈ s.accepted) : Accounted s.db id := by
  have hinv : Sound s ∧ ∀ id ∈ s.accepted, Accounted s.db id := by
    apply hr.invariant
    · rintro s rfl
      exact ⟨sound_of_init rfl, nofun⟩
    · rintro s a s' ⟨hs, hold⟩ hopen hstep
      exact ⟨sound_of_step hs hstep, accounted_of_step hs hold hopen hstep⟩
  exact hinv.2 id hid

/-- A purchase is paid for and the payment is notified twice. -/
theorem accepted_payments_accounted_twice :
    ∃ s, Reach init (step shop) (fun s a => orderOpen s a = true) s ∧ s.accepted = [11, 11] ∧
      Accounted s.db 11 := by
  have hrun : (exec (guarded (step shop) orderOpen) emptyState
      (purchase 1 8 poster "fs1" 21 31 11 ++ [.notify 2 (success "fs1" "1"),
        .notify 2 (success "fs1" "1")])).any (fun s => s.accepted = [11, 11]) = true := by
    decide +kernel
  obtain ⟨s, hexec, hs⟩ := (Option.any_eq_true _ _).mp hrun
  rw [decide_eq_true_eq] at hs
  have hr : Reach init (step shop) (fun s a => orderOpen s a = true) s :=
    reach_of_guarded_exec rfl hexec
  exact ⟨s, hr, hs, accepted_payments_accounted hr (by rw [hs]; exact List.mem_cons_self)⟩

/-- A buyer starts the purchase of a listing twice and pays in the first window: the
payment is acknowledged and its order stays closed. -/
theorem accepted_payment_dropped :
    ∃ s, Reach init (step shop) Free s ∧ 11 ∈ s.accepted ∧ ¬ Accounted s.db 11 := by
  have hrun : (exec (step shop) emptyState
      (purchase 1 8 poster "fs1" 21 31 11 ++ purchase 2 8 poster "fs2" 22 32 12 ++
        [.notify 3 (success "fs1" "1")])).any
      (fun s => s.accepted = [11] && (s.db.attempts.find? 11).any (fun p => p.orderId = 21) &&
        (s.db.orders.find? 21).any fun o => o.status = .closed) = true := by
    decide +kernel
  obtain ⟨s, hexec, hs⟩ := (Option.any_eq_true _ _).mp hrun
  simp only [Bool.and_eq_true, decide_eq_true_eq, Option.any_eq_true] at hs
  obtain ⟨⟨haccepted, p, hp, hporder⟩, o, ho, hclosed⟩ := hs
  refine ⟨s, reach_of_exec rfl hexec, by rw [haccepted]; exact List.mem_cons_self, ?_⟩
  rintro ⟨p', o', hp', ho', hstatus⟩
  rw [hp] at hp'
  obtain rfl := Option.some.inj hp'
  rw [hporder, ho] at ho'
  obtain rfl := Option.some.inj ho'
  rw [hclosed] at hstatus
  rcases hstatus with h | h <;> cases h

end FractalStudio.Commerce
