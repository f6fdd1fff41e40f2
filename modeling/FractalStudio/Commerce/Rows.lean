import FractalStudio.Commerce.Effects

/-!
# The rows after a step

What a step does to one order, one attempt, one item. A status moves along a fixed
relation, and only on a row that no other call holds.
-/
namespace FractalStudio.Commerce

open Platform Finance Txn

/-- How an order's status can change. -/
inductive OrderMove : OrderStatus → OrderStatus → Prop
  | fulfilled : OrderMove .pendingPayment .fulfilled
  | closed : OrderMove .pendingPayment .closed
  | excepted (status : OrderStatus) : OrderMove status .paymentException

theorem OrderMove.not_pending {status status' : OrderStatus} (h : OrderMove status status') :
    status' ≠ .pendingPayment := by
  cases h <;> simp

/-! ## A handler's transaction -/

theorem paid_orders (db : Db) (a : LockedPaymentAttempt) (tradeNo : String) (books : Books) :
    (paid db a tradeNo books).orders =
      db.orders.modify a.orderId fun o => { o with status := .fulfilled } := by
  unfold paid
  dsimp only
  split <;> rfl

theorem paid_attempts (db : Db) (a : LockedPaymentAttempt) (tradeNo : String)
    (books : Books) :
    (paid db a tradeNo books).attempts = db.attempts.modify a.id fun p =>
      { p with status := .succeeded, alipayTradeNo := some tradeNo } := by
  unfold paid
  dsimp only
  split <;> rfl

theorem markReversalManualReview_orders (db : Db) (id orderId : Uuid) (revoke : Bool) :
    (markReversalManualReview db id orderId revoke).orders =
      db.orders.modify orderId fun o => { o with status := .paymentException } := by
  unfold markReversalManualReview
  cases revoke <;> rfl

theorem markReversalManualReview_attempts (db : Db) (id orderId : Uuid) (revoke : Bool) :
    (markReversalManualReview db id orderId revoke).attempts = db.attempts := by
  unfold markReversalManualReview
  cases revoke <;> rfl

/-- The tables no handler writes. -/
structure SameItems (db db' : Db) : Prop where
  items : db'.items = db.items
  membershipOrders : db'.membershipOrders = db.membershipOrders
  notifications : db'.notifications = db.notifications

variable {db db' : Db} {pays reverses : Prop} {a : LockedPaymentAttempt}

theorem sameItems_of_handled (h : Handled pays reverses a db db') : SameItems db db' := by
  cases h with
  | nothing => exact ⟨rfl, rfl, rfl⟩
  | settled _ _ _ =>
    unfold paid
    dsimp only
    split <;> exact ⟨rfl, rfl, rfl⟩
  | closed _ => exact ⟨rfl, rfl, rfl⟩
  | reversed _ _ _ _ => exact ⟨rfl, rfl, rfl⟩
  | reviewed revoke _ _ => cases revoke <;> exact ⟨rfl, rfl, rfl⟩
  | excepted _ => exact ⟨rfl, rfl, rfl⟩

theorem unpaid_iff :
    unpaid a = true ↔ (a.status = .created ∨ a.status = .pending) ∧ a.orderStatus = .pendingPayment := by
  simp [unpaid]

/-- A handler moves at most its own order and attempt; an order is fulfilled together with its
attempt, and leaves that status only when its payment is reversed. -/
theorem handled_rows (h : Handled pays reverses a db db') :
    (db'.orders = db.orders ∧ db'.attempts = db.attempts) ∨
    ∃ status, OrderMove a.orderStatus status ∧ (a.orderStatus = .fulfilled → reverses) ∧
      (db'.orders = db.orders.modify a.orderId fun o => { o with status }) ∧
      (status ≠ .fulfilled ∧ db'.attempts = db.attempts ∨
        ∃ (st : AttemptStatus) (tradeNo : Option String), (status = .fulfilled → st = .succeeded) ∧
          db'.attempts = db.attempts.modify a.id fun p =>
            { p with status := st, alipayTradeNo := tradeNo.or p.alipayTradeNo }) := by
  cases h with
  | nothing => exact .inl ⟨rfl, rfl⟩
  | @settled tradeNo _ _ hunpaid _ =>
    rw [(unpaid_iff.mp hunpaid).2]
    exact .inr ⟨_, .fulfilled, by simp, paid_orders _ _ _ _, .inr ⟨.succeeded, some tradeNo, fun _ => rfl,
      paid_attempts _ _ _ _⟩⟩
  | closed hunpaid =>
    rw [(unpaid_iff.mp hunpaid).2]
    exact .inr ⟨_, .closed, by simp, rfl, .inr ⟨.closed, none, by simp, rfl⟩⟩
  | reversed hreverses _ _ _ =>
    exact .inr ⟨_, .excepted _, fun _ => hreverses, rfl, .inr ⟨.failed, none, by simp, rfl⟩⟩
  | reviewed revoke hreverses _ =>
    exact .inr ⟨_, .excepted _, fun _ => hreverses, markReversalManualReview_orders _ _ _ _,
      .inl ⟨by simp, markReversalManualReview_attempts _ _ _ _⟩⟩
  | excepted hpending =>
    rw [hpending]
    exact .inr ⟨_, .excepted _, by simp, rfl, .inl ⟨by simp, rfl⟩⟩

/-! ## New orders -/

structure NewPayment (db db' : Db) (buyerId : Uuid) (orderId attemptId : Uuid)
    (outTradeNo : String) : Prop where
  inserted : ∃ (o : Order) (p : PaymentAttempt), o.buyerId = buyerId ∧ o.status = .pendingPayment ∧
    p.orderId = orderId ∧ p.outTradeNo = outTradeNo ∧ p.status = .created ∧ p.amount = o.amount ∧
    db.orders.insert? orderId o = some db'.orders ∧
    db.attempts.insert? attemptId p = some db'.attempts
  newOrder : ∀ id p, db.attempts.find? id = some p → p.orderId ≠ orderId
  newTradeNo : ∀ id p, db.attempts.find? id = some p → p.outTradeNo ≠ outTradeNo

theorem not_mem_of_isEmpty {κ ρ : Type} [DecidableEq κ] {t : Table κ ρ} {q : κ → ρ → Bool}
    (h : (t.select q).isEmpty = true) {k : κ} {r : ρ} (hr : t.find? k = some r) : q k r = false := by
  rw [List.isEmpty_iff] at h
  by_contra hq
  rw [Bool.not_eq_false] at hq
  have hmem := Table.mem_select.mpr ⟨hr, hq⟩
  rw [h] at hmem
  cases hmem

theorem newOrder_commits {buyerId : Uuid} {amount : Int} {o : Order}
    (h : newOrder buyerId amount = .ok o) :
    o.buyerId = buyerId ∧ o.status = .pendingPayment ∧ o.amount = amount := by
  unfold newOrder at h
  split at h
  · obtain rfl := Except.ok.inj h
    exact ⟨rfl, rfl, rfl⟩
  · cases h

variable {id orderId : Uuid} {outTradeNo : String} {expiresAt : Nat}

theorem insertAttempt_commits {attempts attempts' : Table Uuid PaymentAttempt} {amount : Int}
    (h : insertAttempt attempts id orderId outTradeNo amount expiresAt = .ok attempts') :
    ∃ p : PaymentAttempt, p.orderId = orderId ∧ p.outTradeNo = outTradeNo ∧ p.status = .created ∧
      p.amount = amount ∧ attempts.insert? id p = some attempts' ∧
      (∀ id p, attempts.find? id = some p → p.orderId ≠ orderId) ∧
      ∀ id p, attempts.find? id = some p → p.outTradeNo ≠ outTradeNo := by
  obtain ⟨p, hp, h⟩ := bind_commits.mp h
  obtain ⟨_, horder, h⟩ := bind_commits.mp h
  obtain ⟨_, htrade, h⟩ := bind_commits.mp h
  rw [require_eq_ok] at horder htrade
  rw [orFail_eq_ok] at h
  unfold newAttempt at hp
  split at hp
  · obtain rfl := Except.ok.inj hp
    refine ⟨_, rfl, rfl, rfl, rfl, h, fun id p hp => ?_, fun id p hp => ?_⟩
    · simpa using not_mem_of_isEmpty horder hp
    · simpa using not_mem_of_isEmpty htrade hp
  · cases hp

/-- What a checkout's commit wrote, over the rows it closed. -/
structure Placed (db db' : Db) (buyerId : Uuid) (offer : PublishedOfferSnapshot)
    (orderId itemId attemptId : Uuid) (outTradeNo : String) : Prop where
  payment : NewPayment db db' buyerId orderId attemptId outTradeNo
  item : ∃ i : OrderItem, i.orderId = orderId ∧ i.listingId = offer.listingId ∧
    i.assetId = offer.assetId ∧ db.items.insert? itemId i = some db'.items
  frame : db'.notifications = db.notifications ∧ db'.reversals = db.reversals ∧
    db'.entitlements = db.entitlements ∧ db'.books = db.books ∧ db'.memberships = db.memberships ∧
    db'.membershipOrders = db.membershipOrders

theorem newItem_commits {offer : PublishedOfferSnapshot} {policy : String}
    {creatorAmount fee : Int} {i : OrderItem}
    (h : newItem orderId offer policy creatorAmount fee = .ok i) :
    i.orderId = orderId ∧ i.listingId = offer.listingId ∧ i.assetId = offer.assetId := by
  unfold newItem at h
  split at h
  · split at h
    · split at h
      · split at h
        · obtain rfl := Except.ok.inj h
          exact ⟨rfl, rfl, rfl⟩
        · cases h
      · cases h
    · cases h
  · cases h

theorem placeOrder_commits {settings : Settings} {buyerId : Uuid} {offer : PublishedOfferSnapshot}
    {attemptIds orderIds : List Uuid} {itemId attemptId : Uuid}
    (h : placeOrder settings db buyerId offer attemptIds orderIds outTradeNo expiresAt orderId itemId
      attemptId = .ok db') :
    Placed (closeListed db attemptIds orderIds) db' buyerId offer orderId itemId attemptId
      outTradeNo := by
  obtain ⟨o, ho, h⟩ := bind_commits.mp h
  obtain ⟨orders, horders, h⟩ := bind_commits.mp h
  obtain ⟨i, hi, h⟩ := bind_commits.mp h
  obtain ⟨items, hitems, h⟩ := bind_commits.mp h
  obtain ⟨attempts, hattempts, h⟩ := bind_commits.mp h
  obtain rfl := Except.ok.inj h
  rw [orFail_eq_ok] at horders hitems
  obtain ⟨hbuyer, hstatus, hamount⟩ := newOrder_commits ho
  obtain ⟨p, hp, hno, hcreated, hpaid, hinsert, hneworder, hnewtrade⟩ :=
    insertAttempt_commits hattempts
  obtain ⟨hitem, hlisting, hasset⟩ := newItem_commits hi
  exact ⟨⟨⟨o, p, hbuyer, hstatus, hp, hno, hcreated, hpaid.trans hamount.symm, horders, hinsert⟩,
    hneworder, hnewtrade⟩, ⟨i, hitem, hlisting, hasset, hitems⟩, rfl, rfl, rfl, rfl, rfl, rfl⟩

/-- What a membership checkout's commit wrote. -/
structure Joined (db db' : Db) (userId orderId attemptId : Uuid) (outTradeNo : String) : Prop where
  payment : NewPayment db db' userId orderId attemptId outTradeNo
  intent : db.membershipOrders.insert? orderId userId = some db'.membershipOrders
  frame : db'.items = db.items ∧ db'.notifications = db.notifications ∧
    db'.reversals = db.reversals ∧ db'.entitlements = db.entitlements ∧ db'.books = db.books ∧
    db'.memberships = db.memberships

theorem createMembershipOrder_commits {userId : Uuid} {attemptId : Uuid}
    (h : createMembershipOrder db userId outTradeNo expiresAt orderId attemptId = .ok db') :
    Joined db db' userId orderId attemptId outTradeNo := by
  obtain ⟨o, ho, h⟩ := bind_commits.mp h
  obtain ⟨orders, horders, h⟩ := bind_commits.mp h
  obtain ⟨attempts, hattempts, h⟩ := bind_commits.mp h
  obtain ⟨intents, hintents, h⟩ := bind_commits.mp h
  obtain rfl := Except.ok.inj h
  rw [orFail_eq_ok] at horders hintents
  obtain ⟨hbuyer, hstatus, hamount⟩ := newOrder_commits ho
  obtain ⟨p, hp, hno, hcreated, hpaid, hinsert, hneworder, hnewtrade⟩ :=
    insertAttempt_commits hattempts
  exact ⟨⟨⟨o, p, hbuyer, hstatus, hp, hno, hcreated, hpaid.trans hamount.symm, horders, hinsert⟩,
    hneworder, hnewtrade⟩, hintents, rfl, rfl, rfl, rfl, rfl, rfl⟩

/-! ## One row across a step -/

/-- The rows after writes that move an order or an attempt only where it is allowed. -/
structure RowsMove (db db' : Db) (orderFree attemptFree : Uuid → Prop) : Prop where
  order : ∀ id o, db.orders.find? id = some o → ∃ status,
    db'.orders.find? id = some { o with status } ∧
      (status = o.status ∨ orderFree id ∧ OrderMove o.status status)
  attempt : ∀ id p, db.attempts.find? id = some p → ∃ p', db'.attempts.find? id = some p' ∧
    p'.orderId = p.orderId ∧ p'.outTradeNo = p.outTradeNo ∧ p'.amount = p.amount ∧
      (p'.status = p.status ∨ attemptFree id)
  item : ∀ id i, db.items.find? id = some i → db'.items.find? id = some i

section RowsMove
variable {orderFree attemptFree : Uuid → Prop}

theorem RowsMove.pending (h : RowsMove db db' orderFree attemptFree) {o : Order}
    (ho : db'.orders.find? id = some o) (hpending : o.status = .pendingPayment) :
    db.orders.find? id = some o ∨ db.orders.find? id = none := by
  cases hold : db.orders.find? id with
  | none => exact .inr rfl
  | some o₀ =>
    left
    obtain ⟨status, ho', hstatus⟩ := h.order id o₀ hold
    rw [ho'] at ho
    obtain rfl := Option.some.inj ho
    rcases hstatus with rfl | ⟨-, hmove⟩
    · rfl
    · exact absurd hpending hmove.not_pending

theorem RowsMove.orderOf {P : OrderStatus → Prop} (h : RowsMove db db' orderFree attemptFree)
    (hkept : ∀ status status', P status → OrderMove status status' → P status')
    (hid : ∃ p o, db.attempts.find? id = some p ∧ db.orders.find? p.orderId = some o ∧ P o.status) :
    ∃ p o, db'.attempts.find? id = some p ∧ db'.orders.find? p.orderId = some o ∧ P o.status := by
  obtain ⟨p, o, hp, ho, hstatus⟩ := hid
  obtain ⟨p', hp', horder, -⟩ := h.attempt id p hp
  obtain ⟨status, ho', hmove⟩ := h.order _ o ho
  refine ⟨p', _, hp', by rw [horder]; exact ho', ?_⟩
  show P status
  rcases hmove with rfl | ⟨-, hmove⟩
  · exact hstatus
  · exact hkept _ _ hstatus hmove

theorem rowsMove_of_same (horders : db'.orders = db.orders)
    (hattempts : db'.attempts = db.attempts) (hitems : db'.items = db.items) :
    RowsMove db db' orderFree attemptFree := by
  constructor
  · intro id o ho
    exact ⟨o.status, by rw [horders]; exact ho, .inl rfl⟩
  · intro id p hp
    exact ⟨p, by rw [hattempts]; exact hp, rfl, rfl, rfl, .inl rfl⟩
  · intro id i hi
    rw [hitems]
    exact hi

theorem rowsMove_of_handled {t : LockedPaymentAttempt} (hl : Locked db t)
    (horder : orderFree t.orderId) (hattempt : attemptFree t.id)
    (h : Handled pays reverses t db db') : RowsMove db db' orderFree attemptFree := by
  have hitems := (sameItems_of_handled h).items
  rcases handled_rows h with ⟨horders, hattempts⟩ | ⟨status, hmove, -, horders, hattempts⟩
  · exact rowsMove_of_same horders hattempts hitems
  · obtain ⟨o₀, ho₀, hstatus, -, -⟩ := hl.order
    constructor
    · intro id o ho
      rw [horders]
      by_cases hid : id = t.orderId
      · subst hid
        rw [ho₀] at ho
        obtain rfl := Option.some.inj ho
        refine ⟨status, ?_, .inr ⟨horder, ?_⟩⟩
        · rw [Table.find?_modify_self, ho₀]
          rfl
        · rw [hstatus]
          exact hmove
      · exact ⟨o.status, by rw [Table.find?_modify_ne _ _ hid]; exact ho, .inl rfl⟩
    · intro id p hp
      rcases hattempts with ⟨-, hattempts⟩ | ⟨st, tradeNo, -, hattempts⟩
      · exact ⟨p, by rw [hattempts]; exact hp, rfl, rfl, rfl, .inl rfl⟩
      · by_cases hid : id = t.id
        · subst hid
          refine ⟨{ p with status := st, alipayTradeNo := tradeNo.or p.alipayTradeNo }, ?_, rfl, rfl, rfl,
            .inr hattempt⟩
          rw [hattempts, Table.find?_modify_self, hp]
          rfl
        · refine ⟨p, ?_, rfl, rfl, rfl, .inl rfl⟩
          rw [hattempts, Table.find?_modify_ne _ _ hid]
          exact hp
    · intro id i hi
      rw [hitems]
      exact hi

theorem find?_closeListed_orders (db : Db) (attemptIds orderIds : List Uuid) (id : Uuid) :
    (closeListed db attemptIds orderIds).orders.find? id = (db.orders.find? id).map fun o =>
      if id ∈ orderIds then { o with status := .closed } else o := by
  have h := Table.find?_updateWhere db.orders (fun id _ => orderIds.contains id)
    (fun _ o => { o with status := .closed }) id
  simp only [List.contains_iff_mem] at h
  exact h

theorem find?_closeListed_attempts (db : Db) (attemptIds orderIds : List Uuid) (id : Uuid) :
    (closeListed db attemptIds orderIds).attempts.find? id = (db.attempts.find? id).map fun p =>
      if id ∈ attemptIds then { p with status := .closed } else p := by
  have h := Table.find?_updateWhere db.attempts (fun id _ => attemptIds.contains id)
    (fun _ p => { p with status := .closed }) id
  simp only [List.contains_iff_mem] at h
  exact h

theorem rowsMove_closeListed {attemptIds orderIds : List Uuid}
    (horder : ∀ id ∈ orderIds, orderFree id ∧ ∀ o, db.orders.find? id = some o →
      o.status = .pendingPayment) (hattempt : ∀ id ∈ attemptIds, attemptFree id) :
    RowsMove db (closeListed db attemptIds orderIds) orderFree attemptFree := by
  constructor
  · intro id o ho
    rw [find?_closeListed_orders, ho, Option.map_some]
    split
    · next hmem =>
      refine ⟨.closed, rfl, .inr ⟨(horder id hmem).1, ?_⟩⟩
      rw [(horder id hmem).2 o ho]
      exact .closed
    · exact ⟨o.status, rfl, .inl rfl⟩
  · intro id p hp
    rw [find?_closeListed_attempts, hp, Option.map_some]
    split
    · next hmem => exact ⟨_, rfl, rfl, rfl, rfl, .inr (hattempt id hmem)⟩
    · exact ⟨p, rfl, rfl, rfl, rfl, .inl rfl⟩
  · intro id i hi
    exact hi

theorem rowsMove_of_newPayment {buyerId attemptId : Uuid}
    (h : NewPayment db db' buyerId orderId attemptId outTradeNo)
    (hitems : ∀ id i, db.items.find? id = some i → db'.items.find? id = some i) :
    RowsMove db db' orderFree attemptFree := by
  obtain ⟨o, p, -, -, -, -, -, -, horders, hattempts⟩ := h.inserted
  constructor
  · intro id o' ho'
    exact ⟨o'.status, Table.find?_of_insert horders ho', .inl rfl⟩
  · intro id p' hp'
    exact ⟨p', Table.find?_of_insert hattempts hp', rfl, rfl, rfl, .inl rfl⟩
  · exact hitems

theorem RowsMove.trans {db₁ : Db} (h : RowsMove db db₁ orderFree attemptFree)
    (h' : RowsMove db₁ db' (fun _ => False) fun _ => False) :
    RowsMove db db' orderFree attemptFree := by
  constructor
  · intro id o ho
    obtain ⟨status, ho₁, hmove⟩ := h.order id o ho
    obtain ⟨status', ho', heq | ⟨hfalse, -⟩⟩ := h'.order id _ ho₁
    · subst heq
      exact ⟨_, ho', hmove⟩
    · exact hfalse.elim
  · intro id p hp
    obtain ⟨p₁, hp₁, horder, htrade, hamount, hmove⟩ := h.attempt id p hp
    obtain ⟨p', hp', horder', htrade', hamount', heq | hfalse⟩ := h'.attempt id p₁ hp₁
    · exact ⟨p', hp', horder'.trans horder, htrade'.trans htrade, hamount'.trans hamount,
        hmove.imp_left heq.trans⟩
    · exact hfalse.elim
  · intro id i hi
    exact h'.item id i (h.item id i hi)

end RowsMove

end FractalStudio.Commerce
