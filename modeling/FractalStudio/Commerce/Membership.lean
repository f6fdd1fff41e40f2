import FractalStudio.Commerce.Sound

/-!
# Membership and the money for it

A settlement activates a membership and nothing ever takes it back: a reversal works through order
items, which a membership order does not have. Membership follows the money as long as a reversal
leaves the member another reason to be one, and a membership checkout commits only when nothing is
pending.
-/
namespace FractalStudio.Commerce

open Platform Finance Txn Transition

def membershipOrdersIn (db : Db) (userId : Uuid) (status : OrderStatus) : List Uuid :=
  (db.membershipOrders.select fun id member => member = userId &&
    (db.orders.find? id).any fun o => o.status = status).map Prod.fst

def grantedByOperator (db : Db) (userId : Uuid) : Bool :=
  (db.memberships.find? userId).any fun m => m.grantedBy.isSome

def Backed (db : Db) : Prop :=
  ∀ userId, isMember db userId = true →
    grantedByOperator db userId = true ∨ ∃ id, id ∈ membershipOrdersIn db userId .fulfilled

def OneWaiting (db : Db) : Prop :=
  ∀ userId id id', id ∈ membershipOrdersIn db userId .pendingPayment →
    id' ∈ membershipOrdersIn db userId .pendingPayment → id = id'

def foundedOtherwise (s : State) (a : Action) : Bool :=
  (a.reverses s).all fun t => t.orderStatus ≠ .fulfilled ||
    (s.db.membershipOrders.find? t.orderId).all fun userId =>
      !isMember s.db userId || grantedByOperator s.db userId ||
        (membershipOrdersIn s.db userId .fulfilled).any fun id => id ≠ t.orderId

def nothingWaiting (s : State) : Action → Bool
  | .commitMembership c _ _ _ =>
    match s.calls c with
    | some (.membershipCheckout userId _ _) =>
      (membershipOrdersIn s.db userId .pendingPayment).isEmpty
    | _ => true
  | _ => true

def followsMoney (s : State) (a : Action) : Bool := foundedOtherwise s a && nothingWaiting s a

theorem mem_membershipOrdersIn {db : Db} {userId id : Uuid} {status : OrderStatus} :
    id ∈ membershipOrdersIn db userId status ↔
      db.membershipOrders.find? id = some userId ∧
        ∃ o, db.orders.find? id = some o ∧ o.status = status := by
  rw [membershipOrdersIn, mem_map_select]
  simp only [Bool.and_eq_true, decide_eq_true_eq, Option.any_eq_true]
  constructor
  · rintro ⟨member, hid, rfl, o, ho, hstatus⟩
    exact ⟨hid, o, ho, hstatus⟩
  · rintro ⟨hid, o, ho, hstatus⟩
    exact ⟨userId, hid, rfl, o, ho, hstatus⟩

section Step
variable {settings : Settings} {s s' : State} {a : Action} {db : Db}

/-- A fulfilled order stays fulfilled unless its payment is reversed. -/
theorem fulfilled_of_effect (hs : Sound s) (h : Effect settings s a db) {id : Uuid} {o : Order}
    (ho : s.db.orders.find? id = some o) (hfulfilled : o.status = .fulfilled) :
    db.orders.find? id = some o ∨
      ∃ t, a.reverses s = some t ∧ t.orderId = id ∧ t.orderStatus = .fulfilled := by
  cases h with
  | quiet => exact .inl ho
  | @handled t n _ hl _ hhandled _ =>
    rcases handled_rows hhandled with ⟨horders, -⟩ | ⟨status, -, hreverses, horders, -⟩
    · left
      rw [horders]
      exact ho
    · by_cases hid : id = t.orderId
      · obtain ⟨o', ho', hstatus, -⟩ := hl.order
        rw [← hid, ho] at ho'
        obtain rfl := Option.some.inj ho'
        have hdone : t.orderStatus = .fulfilled := hstatus.symm.trans hfulfilled
        exact .inr ⟨t, hreverses hdone, hid.symm, hdone⟩
      · left
        rw [horders, Table.find?_modify_ne _ _ hid]
        exact ho
  | placed _ hcall hplaced =>
    left
    obtain ⟨-, hlocked⟩ := hs.phases _ _ hcall
    obtain ⟨_, _, -, -, -, -, -, -, horders, -⟩ := (placeOrder_commits hplaced).payment.inserted
    apply Table.find?_of_insert horders
    rw [find?_closeListed_orders, ho, Option.map_some, if_neg]
    -- the orders a checkout closes are pending
    intro hmem
    obtain ⟨-, o', ho', hpending⟩ := hlocked id hmem
    rw [ho] at ho'
    obtain rfl := Option.some.inj ho'
    rw [hfulfilled] at hpending
    cases hpending
  | joined _ _ hjoined =>
    left
    obtain ⟨_, _, -, -, -, -, -, -, horders, -⟩ :=
      (createMembershipOrder_commits hjoined).payment.inserted
    exact Table.find?_of_insert horders ho
  | granted _ => exact .inl ho
  | paidOut _ _ => exact .inl ho

theorem membershipOrders_of_effect (h : Effect settings s a db) :
    db.membershipOrders = s.db.membershipOrders ∨
    ∃ c userId expiresAt outTradeNo orderId attemptId,
      a = .commitMembership c outTradeNo orderId attemptId ∧
      s.calls c = some (.membershipCheckout userId expiresAt .noPendingPayment) ∧
      s.db.membershipOrders.insert? orderId userId = some db.membershipOrders := by
  cases h with
  | quiet => exact .inl rfl
  | handled _ _ hhandled _ => exact .inl (sameItems_of_handled hhandled).membershipOrders
  | placed _ _ hplaced => exact .inl (placeOrder_commits hplaced).frame.2.2.2.2.2
  | joined ha hcall hjoined =>
    exact .inr ⟨_, _, _, _, _, _, ha, hcall, (createMembershipOrder_commits hjoined).intent⟩
  | granted _ => exact .inl rfl
  | paidOut _ _ => exact .inl rfl

theorem find?_membershipOrders_of_effect (h : Effect settings s a db) {id userId : Uuid}
    (hid : s.db.membershipOrders.find? id = some userId) :
    db.membershipOrders.find? id = some userId := by
  rcases membershipOrders_of_effect h with heq | ⟨_, _, _, _, _, _, -, -, hinsert⟩
  · rw [heq]
    exact hid
  · exact Table.find?_of_insert hinsert hid

theorem handled_memberships {pays reverses : Prop} {t : LockedPaymentAttempt} {db db' : Db}
    (hl : Locked db t) (h : Handled pays reverses t db db') :
    db'.memberships = db.memberships ∨
    (db.membershipOrders.find? t.orderId).isSome = true ∧
      db'.memberships = (activateMembership db t.buyerId).memberships ∧
      ∃ o, db'.orders.find? t.orderId = some o ∧ o.status = .fulfilled := by
  cases h with
  | nothing => exact .inl rfl
  | @settled tradeNo books _ _ _ =>
    obtain ⟨o, ho, -⟩ := hl.order
    have horder : (paid db t tradeNo books).orders.find? t.orderId =
        some { o with status := .fulfilled } := by
      rw [paid_orders, Table.find?_modify_self, ho]
      rfl
    have hmemberships : (paid db t tradeNo books).memberships =
        if (db.membershipOrders.find? t.orderId).isSome
          then (activateMembership db t.buyerId).memberships else db.memberships := by
      unfold paid
      exact apply_ite Db.memberships _ _ _
    rw [hmemberships]
    split
    · next hmember => exact .inr ⟨hmember, rfl, _, horder, rfl⟩
    · exact .inl rfl
  | closed _ => exact .inl rfl
  | reversed _ _ _ _ => exact .inl rfl
  | reviewed revoke _ _ => cases revoke <;> exact .inl rfl
  | excepted _ => exact .inl rfl

/-- A membership row changes only for an operator or a fulfilled order. -/
theorem membership_of_effect (hs : Sound s) (h : Effect settings s a db) (userId : Uuid) :
    db.memberships.find? userId = s.db.memberships.find? userId ∨
    grantedByOperator db userId = true ∨ ∃ id, id ∈ membershipOrdersIn db userId .fulfilled := by
  cases h with
  | quiet => exact .inl rfl
  | @handled t n _ hl _ hhandled _ =>
    rcases handled_memberships (hl.withNotifications n) hhandled with heq | ⟨hsome, heq, hdone⟩
    · left
      rw [heq]
      rfl
    · by_cases huser : userId = t.buyerId
      · -- the order's member is its buyer
        obtain ⟨member, hmember⟩ := Option.isSome_iff_exists.mp hsome
        obtain ⟨o, ho, hbuyer⟩ := hs.db.member t.orderId member hmember
        obtain ⟨o', ho', -, hbuyer', -⟩ := hl.order
        rw [ho] at ho'
        obtain rfl := Option.some.inj ho'
        have hsame : member = userId := hbuyer.symm.trans (hbuyer'.trans huser.symm)
        refine .inr (.inr ⟨t.orderId, mem_membershipOrdersIn.mpr ⟨?_, hdone⟩⟩)
        rw [(sameItems_of_handled hhandled).membershipOrders, ← hsame]
        exact hmember
      · left
        rw [heq]
        refine (Table.find?_upsert _ _ _ _ _).trans ?_
        rw [if_neg huser]
        rfl
  | placed _ _ hplaced =>
    left
    rw [(placeOrder_commits hplaced).frame.2.2.2.2.1]
    rfl
  | joined _ _ hjoined =>
    left
    rw [(createMembershipOrder_commits hjoined).frame.2.2.2.2.2]
  | @granted operator user _ =>
    have hfind := Table.find?_upsert s.db.memberships user ⟨.active, some operator⟩
      (fun _ => ⟨.active, some operator⟩) userId
    by_cases huser : userId = user
    · right
      left
      rw [if_pos huser] at hfind
      show ((s.db.memberships.upsert user _ _).find? userId).any _ = true
      rw [hfind]
      cases s.db.memberships.find? user <;> rfl
    · left
      rw [if_neg huser] at hfind
      exact hfind
  | paidOut _ _ => exact .inl rfl

/-- A step that finds the membership founded keeps it backed. -/
theorem backed_of_effect (hs : Sound s) (hback : Backed s.db) (hok : foundedOtherwise s a = true)
    (h : Effect settings s a db) : Backed db := by
  intro userId hmember
  rcases membership_of_effect hs h userId with hsame | hfounded
  · have hgranted : grantedByOperator db userId = grantedByOperator s.db userId := by
      rw [grantedByOperator, hsame]
      rfl
    have hbefore : isMember s.db userId = true := by
      rw [isMember, hsame] at hmember
      exact hmember
    -- an order that stays fulfilled still counts
    have hstays : ∀ id, id ∈ membershipOrdersIn s.db userId .fulfilled →
        id ∈ membershipOrdersIn db userId .fulfilled ∨
          ∃ t, a.reverses s = some t ∧ t.orderId = id ∧ t.orderStatus = .fulfilled := by
      intro id hid
      obtain ⟨hentry, o, ho, hfulfilled⟩ := mem_membershipOrdersIn.mp hid
      rcases fulfilled_of_effect hs h ho hfulfilled with ho' | hreversed
      · exact .inl (mem_membershipOrdersIn.mpr
          ⟨find?_membershipOrders_of_effect h hentry, o, ho', hfulfilled⟩)
      · exact .inr hreversed
    rw [hgranted]
    rcases hback userId hbefore with hoperator | ⟨id, hid⟩
    · exact .inl hoperator
    · rcases hstays id hid with hid' | ⟨t, ht, rfl, hfulfilled⟩
      · exact .inr ⟨id, hid'⟩
      · have hentry := (mem_membershipOrdersIn.mp hid).1
        rw [foundedOtherwise, ht, Option.all_some, hentry, Option.all_some, hbefore] at hok
        simp only [hfulfilled, ne_eq, not_true_eq_false, decide_false, Bool.not_true,
          Bool.false_or, Bool.or_eq_true, List.any_eq_true, decide_eq_true_eq] at hok
        rcases hok with hoperator | ⟨id', hid', hne⟩
        · exact .inl hoperator
        · rcases hstays id' hid' with hkept | ⟨t', ht', rfl, -⟩
          · exact .inr ⟨id', hkept⟩
          · rw [ht] at ht'
            obtain rfl := Option.some.inj ht'
            exact absurd rfl hne
  · exact hfounded

/-- Only a checkout makes a membership order wait. -/
theorem waiting_of_effect (hs : Sound s) (h : Effect settings s a db) {userId id : Uuid}
    (hid : id ∈ membershipOrdersIn db userId .pendingPayment) :
    id ∈ membershipOrdersIn s.db userId .pendingPayment ∨
    ∃ c expiresAt outTradeNo attemptId, a = .commitMembership c outTradeNo id attemptId ∧
      s.calls c = some (.membershipCheckout userId expiresAt .noPendingPayment) := by
  obtain ⟨hentry, o, ho, hpending⟩ := mem_membershipOrdersIn.mp hid
  have hold : s.db.membershipOrders.find? id = some userId →
      id ∈ membershipOrdersIn s.db userId .pendingPayment := by
    intro hbefore
    rcases (rowsMove_of_effect hs.phases h).pending ho hpending with ho' | hnone
    · exact mem_membershipOrdersIn.mpr ⟨hbefore, o, ho', hpending⟩
    · obtain ⟨o', ho', -⟩ := hs.db.member id userId hbefore
      rw [hnone] at ho'
      cases ho'
  rcases membershipOrders_of_effect h with heq | ⟨c, user, expiresAt, no, orderId, attemptId, ha, hcall, hinsert⟩
  · rw [heq] at hentry
    exact .inl (hold hentry)
  · rw [Table.find?_insert hinsert] at hentry
    split at hentry
    · next heq =>
      subst heq
      obtain rfl := Option.some.inj hentry
      exact .inr ⟨c, expiresAt, no, attemptId, ha, hcall⟩
    · exact .inl (hold hentry)

/-- A checkout that finds nothing waiting keeps at most one order waiting. -/
theorem oneWaiting_of_effect (hs : Sound s) (hone : OneWaiting s.db)
    (hok : nothingWaiting s a = true) (h : Effect settings s a db) : OneWaiting db := by
  -- beside an inserted order nothing waited
  have hnew : ∀ {c userId expiresAt outTradeNo id attemptId id'},
      a = .commitMembership c outTradeNo id attemptId →
      s.calls c = some (.membershipCheckout userId expiresAt .noPendingPayment) →
      id' ∉ membershipOrdersIn s.db userId .pendingPayment := by
    intro c userId expiresAt outTradeNo id attemptId id' ha hcall hmem
    rw [ha, nothingWaiting, hcall] at hok
    rw [List.isEmpty_iff.mp hok] at hmem
    cases hmem
  intro userId id id' hid hid'
  rcases waiting_of_effect hs h hid with hold | ⟨c, _, _, _, ha, hcall⟩
  · rcases waiting_of_effect hs h hid' with hold' | ⟨c', _, _, _, ha', hcall'⟩
    · exact hone userId id id' hold hold'
    · exact absurd hold (hnew ha' hcall')
  · rcases waiting_of_effect hs h hid' with hold' | ⟨c', _, _, _, ha', hcall'⟩
    · exact absurd hold' (hnew ha hcall)
    · rw [ha] at ha'
      obtain ⟨-, -, heq, -⟩ := Action.commitMembership.inj ha'
      exact heq

end Step

/-- While reversals leave the member founded otherwise and checkouts commit with nothing pending,
every member was granted the membership or paid for it, and no user has two pending orders. -/
theorem membership_follows_money {settings : Settings} {s : State}
    (hr : Reach init (step settings) (fun s a => followsMoney s a = true) s) (userId : Uuid) :
    (isMember s.db userId = true →
      grantedByOperator s.db userId = true ∨
        ∃ id o, s.db.membershipOrders.find? id = some userId ∧ s.db.orders.find? id = some o ∧
          o.status = .fulfilled) ∧
    (membershipOrdersIn s.db userId .pendingPayment).length ≤ 1 := by
  have hinv : Sound s ∧ Backed s.db ∧ OneWaiting s.db := by
    apply hr.invariant
    · rintro s rfl
      refine ⟨sound_of_init rfl, fun user hmember => ?_, fun user id id' hid => ?_⟩
      · cases hmember
      · cases hid
    · intro s a s' hs hok hstep
      obtain ⟨hsound, hback, hone⟩ := hs
      rw [followsMoney, Bool.and_eq_true] at hok
      have heffect := effect_of_step hstep
      exact ⟨sound_of_step hsound hstep, backed_of_effect hsound hback hok.1 heffect,
        oneWaiting_of_effect hsound hone hok.2 heffect⟩
  obtain ⟨-, hback, hone⟩ := hinv
  constructor
  · intro hmember
    refine (hback userId hmember).imp_right fun hpaid => ?_
    obtain ⟨id, hid⟩ := hpaid
    obtain ⟨hentry, o, ho, hfulfilled⟩ := mem_membershipOrdersIn.mp hid
    exact ⟨id, o, hentry, ho, hfulfilled⟩
  · exact Table.length_le_one (Table.nodup_select _ _) fun id hid id' hid' =>
      hone userId id id' hid hid'

def joining (c : CallId) (userId : Uuid) (outTradeNo : String) (orderId attemptId : Uuid) :
    List Action :=
  [.membershipCheckout c userId, .checkMember c, .checkPendingPayment c,
    .commitMembership c outTradeNo orderId attemptId]

/-- A notification about the whole price of a membership. -/
def dues (outTradeNo tradeNo : String) (tradeStatus : TradeStatus) : SignedFields :=
  ⟨⟨outTradeNo, tradeNo, tradeStatus, membershipPrice, none⟩,
    (if isPaid tradeStatus then "paid " else "closed ") ++ tradeNo⟩

/-- A membership is paid, granted by an operator too, and refunded. -/
theorem membership_follows_money_granted :
    ∃ s, Reach init (step shop) (fun s a => followsMoney s a = true) s ∧
      isMember s.db 8 = true ∧ grantedByOperator s.db 8 = true ∧
      membershipOrdersIn s.db 8 .fulfilled = [] ∧
      (grantedByOperator s.db 8 = true ∨
        ∃ id o, s.db.membershipOrders.find? id = some 8 ∧ s.db.orders.find? id = some o ∧
          o.status = .fulfilled) := by
  have hrun : (exec (guarded (step shop) followsMoney) emptyState
      (joining 1 8 "fs1" 21 11 ++ [.notify 2 (dues "fs1" "1" .tradeSuccess), .grantMembership 3 8,
        .notify 2 (dues "fs1" "1" .tradeClosed)])).any
      (fun s => isMember s.db 8 && grantedByOperator s.db 8 &&
        membershipOrdersIn s.db 8 .fulfilled = []) = true := by
    decide +kernel
  obtain ⟨s, hexec, hs⟩ := (Option.any_eq_true _ _).mp hrun
  rw [Bool.and_eq_true, Bool.and_eq_true, decide_eq_true_eq] at hs
  obtain ⟨⟨hmember, hgranted⟩, hnone⟩ := hs
  have hr : Reach init (step shop) (fun s a => followsMoney s a = true) s :=
    reach_of_guarded_exec rfl hexec
  exact ⟨s, hr, hmember, hgranted, hnone, (membership_follows_money hr 8).1 hmember⟩

/-- A refunded member stays one, and a user can wait for two membership payments. -/
theorem membership_without_money :
    (∃ s, Reach init (step shop) Free s ∧ isMember s.db 8 = true ∧
      grantedByOperator s.db 8 = false ∧ membershipOrdersIn s.db 8 .fulfilled = []) ∧
    ∃ s, Reach init (step shop) Free s ∧ (membershipOrdersIn s.db 8 .pendingPayment).length = 2 := by
  have hrefunded : (exec (step shop) emptyState
      (joining 1 8 "fs1" 21 11 ++ [.notify 2 (dues "fs1" "1" .tradeSuccess),
        .notify 2 (dues "fs1" "1" .tradeClosed)])).any
      (fun s => isMember s.db 8 && (grantedByOperator s.db 8 = false &&
        membershipOrdersIn s.db 8 .fulfilled = [])) = true := by
    decide +kernel
  have hwaiting : (exec (step shop) emptyState
      (joining 1 8 "fs1" 21 11 ++ joining 2 8 "fs2" 22 12)).any
      (fun s => (membershipOrdersIn s.db 8 .pendingPayment).length = 2) = true := by
    decide +kernel
  obtain ⟨s, hexec, hs⟩ := (Option.any_eq_true _ _).mp hrefunded
  obtain ⟨s', hexec', hs'⟩ := (Option.any_eq_true _ _).mp hwaiting
  simp only [Bool.and_eq_true, decide_eq_true_eq] at hs
  obtain ⟨hmember, hgranted, hnone⟩ := hs
  exact ⟨⟨s, reach_of_exec rfl hexec, hmember, hgranted, hnone⟩,
    s', reach_of_exec rfl hexec', of_decide_eq_true hs'⟩

end FractalStudio.Commerce
