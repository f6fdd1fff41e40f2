import FractalStudio.Commerce.Rows

/-!
# What every reachable state keeps

The tables refer to each other, an order waits for payment only with an open attempt,
and a checkout holds the rows it is going to close. The last fact carries the others
over the commit of a checkout, whose locked rows no handler can have moved.
-/
namespace FractalStudio.Commerce

open Platform Finance Txn Transition

def Listed (db : Db) (buyerId listingId orderId : Uuid) : Prop :=
  (∃ o, db.orders.find? orderId = some o ∧ o.buyerId = buyerId) ∧
  ∃ id i, db.items.find? id = some i ∧ i.orderId = orderId ∧ i.listingId = listingId

def Held (s : State) (c : CallId) (id : Uuid) (P : Uuid → Prop) : Prop :=
  s.attemptLocks id = some c ∧
  ∃ p, s.db.attempts.find? id = some p ∧ p.status = .created ∧ P p.orderId

/-- What a call knows where it stands. -/
def PhaseOk (s : State) (c : CallId) : Call → Prop
  | .checkout buyerId offer _ (.closingAttempts orderIds) =>
    ∀ id ∈ orderIds, Listed s.db buyerId offer.listingId id
  | .checkout buyerId offer _ (.attemptsClosed attemptIds) =>
    ∀ id ∈ attemptIds, Held s c id (Listed s.db buyerId offer.listingId)
  | .checkout _ _ _ (.closingOrders attemptIds listed) =>
    ∀ id ∈ attemptIds, Held s c id fun orderId =>
      orderId ∈ listed ∧ ∃ o, s.db.orders.find? orderId = some o
  | .checkout _ _ _ (.ordersClosed attemptIds orderIds) =>
    (∀ id ∈ attemptIds, Held s c id fun orderId => orderId ∈ orderIds ∨
      ∃ o, s.db.orders.find? orderId = some o ∧ o.status ≠ .pendingPayment) ∧
    ∀ id ∈ orderIds, s.orderLocks id = some c ∧
      ∃ o, s.db.orders.find? id = some o ∧ o.status = .pendingPayment
  | .recoveringNotification fields => fields.trade.tradeStatus = .tradeClosed
  | _ => True

def PhasesOk (s : State) : Prop := ∀ c call, s.calls c = some call → PhaseOk s c call

/-- A row is free for an action when no other call has locked it. -/
def FreeFor (locks : Uuid → Option CallId) (a : Action) (id : Uuid) : Prop :=
  ∀ c, locks id = some c → a.call? = some c

variable {db db' : Db} {c : CallId} {buyerId orderId : Uuid} {t : LockedPaymentAttempt}
  {orderIds : List Uuid} {orderFree attemptFree : Uuid → Prop} {ρ : Type}

section Step
variable {settings : Settings} {s s' : State} {a : Action}

theorem freeFor_of_lockable (a : Action) (h : s.lockable (some t) = true) :
    FreeFor s.orderLocks a t.orderId ∧ FreeFor s.attemptLocks a t.id := by
  simp only [State.lockable, Bool.and_eq_true, decide_eq_true_eq] at h
  constructor
  · intro c hc
    rw [h.2] at hc
    cases hc
  · intro c hc
    rw [h.1] at hc
    cases hc

/-- A step writes only the rows that no other call has locked. -/
theorem rowsMove_of_effect (hphases : PhasesOk s) (h : Effect settings s a db) :
    RowsMove s.db db (FreeFor s.orderLocks a) (FreeFor s.attemptLocks a) := by
  cases h with
  | quiet => exact rowsMove_of_same rfl rfl rfl
  | handled hl hfree hhandled _ =>
    obtain ⟨horder, hattempt⟩ := freeFor_of_lockable a hfree
    have hmove := rowsMove_of_handled (hl.withNotifications _) horder hattempt hhandled
    exact ⟨hmove.order, hmove.attempt, hmove.item⟩
  | @placed c buyerId offer expiresAt attemptIds orderIds outTradeNo orderId itemId attemptId _
      ha hcall hplaced =>
    have hp := placeOrder_commits hplaced
    obtain ⟨hheld, hlocked⟩ := hphases c _ hcall
    have hself : a.call? = some c := by rw [ha]; rfl
    have hclose : RowsMove s.db (closeListed s.db attemptIds orderIds) (FreeFor s.orderLocks a)
        (FreeFor s.attemptLocks a) := by
      apply rowsMove_closeListed
      · intro id hid
        obtain ⟨hlock, o, ho, hpending⟩ := hlocked id hid
        refine ⟨fun c' hc' => ?_, fun o' ho' => ?_⟩
        · rw [hlock] at hc'
          rw [← hc']
          exact hself
        · rw [ho] at ho'
          rw [← Option.some.inj ho']
          exact hpending
      · intro id hid c' hc'
        rw [(hheld id hid).1] at hc'
        rw [← hc']
        exact hself
    obtain ⟨i, -, -, -, hitems⟩ := hp.item
    exact hclose.trans (rowsMove_of_newPayment hp.payment fun id i hi =>
      Table.find?_of_insert hitems hi)
  | joined _ _ hjoined =>
    have hj := createMembershipOrder_commits hjoined
    refine rowsMove_of_newPayment hj.payment fun id i hi => ?_
    rw [hj.frame.1]
    exact hi
  | granted _ => exact rowsMove_of_same rfl rfl rfl
  | paidOut _ _ => exact rowsMove_of_same rfl rfl rfl

variable {id listingId : Uuid}

theorem Listed.mono (hrows : RowsMove db db' orderFree attemptFree)
    (h : Listed db buyerId listingId id) :
    Listed db' buyerId listingId id := by
  obtain ⟨⟨o, ho, hbuyer⟩, itemId, i, hi, hitem⟩ := h
  obtain ⟨status, ho', -⟩ := hrows.order id o ho
  exact ⟨⟨_, ho', hbuyer⟩, itemId, i, hrows.item itemId i hi, hitem⟩

theorem not_pending_of_rowsMove (hrows : RowsMove db db' orderFree attemptFree)
    (h : ∃ o, db.orders.find? id = some o ∧ o.status ≠ .pendingPayment) :
    ∃ o, db'.orders.find? id = some o ∧ o.status ≠ .pendingPayment := by
  obtain ⟨o, ho, hstatus⟩ := h
  obtain ⟨status, ho', hsame | ⟨-, hmove⟩⟩ := hrows.order id o ho
  · refine ⟨_, ho', ?_⟩
    show status ≠ .pendingPayment
    rw [hsame]
    exact hstatus
  · refine ⟨_, ho', ?_⟩
    exact hmove.not_pending

theorem Held.frame {P P' : Uuid → Prop}
    (hrows : RowsMove s.db s'.db (FreeFor s.orderLocks a) (FreeFor s.attemptLocks a))
    (hne : a.call? ≠ some c)
    (hlocks : ∀ id, s.attemptLocks id = some c → s'.attemptLocks id = some c)
    (himp : ∀ orderId, P orderId → P' orderId) (h : Held s c id P) : Held s' c id P' := by
  obtain ⟨hlock, p, hp, hcreated, hP⟩ := h
  obtain ⟨p', hp', horder, -, -, hstatus | hfree⟩ := hrows.attempt id p hp
  · refine ⟨hlocks id hlock, p', hp', hstatus.trans hcreated, ?_⟩
    rw [horder]
    exact himp _ hP
  · exact absurd (hfree c hlock) hne

theorem PhaseOk.frame {call : Call} (h : PhaseOk s c call) (a : Action) (hne : a.call? ≠ some c)
    (hrows : RowsMove s.db s'.db (FreeFor s.orderLocks a) (FreeFor s.attemptLocks a))
    (hattempts : ∀ id, s.attemptLocks id = some c → s'.attemptLocks id = some c)
    (horders : ∀ id, s.orderLocks id = some c → s'.orderLocks id = some c) :
    PhaseOk s' c call := by
  match call with
  | .checkout buyerId offer _ (.closingAttempts orderIds) =>
    intro id hid
    exact (h id hid).mono hrows
  | .checkout buyerId offer _ (.attemptsClosed attemptIds) =>
    intro id hid
    exact (h id hid).frame hrows hne hattempts fun _ hlisted => hlisted.mono hrows
  | .checkout _ _ _ (.closingOrders attemptIds listed) =>
    intro id hid
    refine (h id hid).frame hrows hne hattempts ?_
    rintro orderId ⟨hmem, o, ho⟩
    obtain ⟨status, ho', -⟩ := hrows.order orderId o ho
    exact ⟨hmem, _, ho'⟩
  | .checkout _ _ _ (.ordersClosed attemptIds orderIds) =>
    obtain ⟨hheld, hlocked⟩ := h
    constructor
    · intro id hid
      exact (hheld id hid).frame hrows hne hattempts fun orderId hor =>
        hor.imp_right (not_pending_of_rowsMove hrows)
    · intro id hid
      obtain ⟨hlock, o, ho, hpending⟩ := hlocked id hid
      obtain ⟨status, ho', hsame | ⟨hfree, -⟩⟩ := hrows.order id o ho
      · exact ⟨horders id hlock, _, ho', hsame.trans hpending⟩
      · exact absurd (hfree c hlock) hne
  | .recoveringNotification fields => exact h
  | .checkout _ _ _ .started | .checkout _ _ _ .notOwned | .membershipCheckout _ _ _
  | .querying _ _ | .closingTrade _ | .reversing _ _ | .recoveringReversal _ _ => trivial

/-! ## The step of a call -/

theorem exists_of_not_isEmpty {κ : Type} [DecidableEq κ] {t : Table κ ρ} {q : κ → ρ → Bool} :
    (!(t.select q).isEmpty) = true ↔ ∃ k r, t.find? k = some r ∧ q k r = true := by
  rw [Bool.not_eq_true', List.isEmpty_eq_false_iff_exists_mem]
  constructor
  · rintro ⟨⟨k, r⟩, hmem⟩
    exact ⟨k, r, Table.mem_select.mp hmem⟩
  · rintro ⟨k, r, h⟩
    exact ⟨(k, r), Table.mem_select.mpr h⟩

theorem mem_map_select {κ : Type} [DecidableEq κ] {t : Table κ ρ} {q : κ → ρ → Bool} {k : κ} :
    k ∈ (t.select q).map Prod.fst ↔ ∃ r, t.find? k = some r ∧ q k r = true := by
  constructor
  · intro h
    obtain ⟨⟨k', r⟩, hmem, rfl⟩ := List.mem_map.mp h
    exact ⟨r, Table.mem_select.mp hmem⟩
  · rintro ⟨r, h⟩
    exact List.mem_map.mpr ⟨(k, r), Table.mem_select.mpr h, rfl⟩

theorem mem_ordersForListing :
    id ∈ (ordersForListing db buyerId listingId).map Prod.fst ↔ Listed db buyerId listingId id := by
  rw [ordersForListing, mem_map_select]
  simp only [Bool.and_eq_true, decide_eq_true_eq, exists_of_not_isEmpty]
  constructor
  · rintro ⟨o, ho, hbuyer, itemId, i, hi, hitem⟩
    exact ⟨⟨o, ho, hbuyer⟩, itemId, i, hi, hitem⟩
  · rintro ⟨⟨o, ho, hbuyer⟩, itemId, i, hi, hitem⟩
    exact ⟨o, ho, hbuyer, itemId, i, hi, hitem⟩

theorem mem_orderItems {i : OrderItem} :
    (id, i) ∈ orderItems db orderId ↔ db.items.find? id = some i ∧ i.orderId = orderId := by
  unfold orderItems
  rw [List.mem_insertionSort, Table.mem_select, decide_eq_true_eq]

theorem listed_of_mem_pending (h : id ∈ pendingOrdersForListing db buyerId listingId) :
    Listed db buyerId listingId id := by
  obtain ⟨r, hr, rfl⟩ := List.mem_map.mp h
  exact mem_ordersForListing.mp (List.mem_map.mpr ⟨r, (List.mem_filter.mp hr).1, rfl⟩)

theorem mem_createdAttempts :
    id ∈ createdAttempts db orderIds ↔
      ∃ p, db.attempts.find? id = some p ∧ p.orderId ∈ orderIds ∧ p.status = .created := by
  rw [createdAttempts, mem_map_select]
  simp only [Bool.and_eq_true, decide_eq_true_eq, List.contains_iff_mem]

theorem mem_pendingOrders :
    id ∈ pendingOrders db orderIds ↔
      ∃ o, db.orders.find? id = some o ∧ id ∈ orderIds ∧ o.status = .pendingPayment := by
  rw [pendingOrders, mem_map_select]
  simp only [Bool.and_eq_true, decide_eq_true_eq, List.contains_iff_mem]

theorem phaseOk_of_idle {call : Call} (hidle : call.idle = true)
    (hclosed : ∀ fields, call = .recoveringNotification fields →
      fields.trade.tradeStatus = .tradeClosed) : PhaseOk s c call := by
  match call with
  | .recoveringNotification fields => exact hclosed fields rfl
  | .checkout _ _ _ .started | .checkout _ _ _ .notOwned | .membershipCheckout _ _ _
  | .querying _ _ | .closingTrade _ | .reversing _ _ | .recoveringReversal _ _ => trivial

theorem call_of_update {c' : CallId} {call call' : Call}
    (h : Function.update s.calls c (some call) c' = some call') :
    c' = c ∧ call' = call ∨ c' ≠ c ∧ s.calls c' = some call' := by
  by_cases hc : c' = c
  · subst hc
    rw [Function.update_self] at h
    exact .inl ⟨rfl, (Option.some.inj h).symm⟩
  · rw [Function.update_of_ne hc] at h
    exact .inr ⟨hc, h⟩

variable {locks : Uuid → Option CallId}

theorem lock_of_acquire {ids : List Uuid} {c' : CallId} (hfree : free locks ids = true)
    (h : locks id = some c') :
    acquire locks ids c id = some c' := by
  unfold acquire
  split
  · next hmem =>
    have hnone := of_decide_eq_true (List.all_eq_true.mp hfree id hmem)
    rw [h] at hnone
    cases hnone
  · exact h

theorem lock_of_release {c' : CallId} (hne : c' ≠ c) (h : locks id = some c') :
    release locks c id = some c' := by
  unfold release
  rw [if_neg]
  · exact h
  · rw [h]
    intro heq
    exact hne (Option.some.inj heq)

theorem finish_calls_self (s : State) (c : CallId) : (s.finish c).calls c = none :=
  Function.update_self _ _ _

theorem finish_calls_ne (s : State) {c' : CallId} (h : c' ≠ c) :
    (s.finish c).calls c' = s.calls c' := Function.update_of_ne h _ _

theorem PhaseOk.acquire {c' : CallId} {call' : Call} (h : PhaseOk s c' call') (call : Call)
    {attemptLocks orderLocks : Uuid → Option CallId}
    (hattempts : ∀ id, s.attemptLocks id = some c' → attemptLocks id = some c')
    (horders : ∀ id, s.orderLocks id = some c' → orderLocks id = some c') :
    PhaseOk { s.put c call with attemptLocks, orderLocks } c' call' :=
  h.frame .tick (by simp [Action.call?]) (rowsMove_of_same rfl rfl rfl) hattempts horders

theorem acquire_mem {ids : List Uuid} (c : CallId) (h : id ∈ ids) :
    acquire locks ids c id = some c := if_pos h

/-- A step leaves every call in a phase that fits its locks. -/
theorem phasesOk_of_step (hphases : PhasesOk s) (h : step settings s a = some s') :
    PhasesOk s' := by
  intro c' call' hcall'
  cases step_cases h with
  | kept hnone heffect _ =>
    refine (hphases c' call' hcall').frame a ?_ (rowsMove_of_effect hphases heffect)
      (fun _ => id) fun _ => id
    rw [hnone]
    simp
  | @resumed c call _ hidle hclosed _ =>
    rcases call_of_update hcall' with ⟨rfl, rfl⟩ | ⟨-, hcall⟩
    · exact phaseOk_of_idle hidle hclosed
    · exact hphases c' call' hcall
  | @pendingRead c buyerId offer expiresAt _ _ =>
    rcases call_of_update hcall' with ⟨rfl, rfl⟩ | ⟨-, hcall⟩
    · intro id hid
      exact listed_of_mem_pending hid
    · exact hphases c' call' hcall
  | @attemptsLocked c buyerId offer expiresAt orderIds _ hcall hfree =>
    rcases call_of_update hcall' with ⟨rfl, rfl⟩ | ⟨-, hother⟩
    · intro id hid
      obtain ⟨p, hp, horder, hcreated⟩ := mem_createdAttempts.mp hid
      exact ⟨acquire_mem c' hid, p, hp, hcreated, hphases c' _ hcall _ horder⟩
    · exact (hphases c' call' hother).acquire _ (fun _ => lock_of_acquire hfree) fun _ => id
  | @ordersRead c buyerId offer expiresAt attemptIds _ hcall =>
    rcases call_of_update hcall' with ⟨rfl, rfl⟩ | ⟨-, hother⟩
    · intro id hid
      obtain ⟨hlock, p, hp, hcreated, hlisted⟩ := hphases c' _ hcall id hid
      obtain ⟨o, ho, -⟩ := hlisted.1
      exact ⟨hlock, p, hp, hcreated, mem_ordersForListing.mpr hlisted, o, ho⟩
    · exact hphases c' call' hother
  | @ordersLocked c buyerId offer expiresAt attemptIds listed _ hcall hfree =>
    rcases call_of_update hcall' with ⟨rfl, rfl⟩ | ⟨-, hother⟩
    · constructor
      · intro id hid
        obtain ⟨hlock, p, hp, hcreated, hlisted, o, ho⟩ := hphases c' _ hcall id hid
        refine ⟨hlock, p, hp, hcreated, ?_⟩
        by_cases hpending : o.status = .pendingPayment
        · exact .inl (mem_pendingOrders.mpr ⟨o, ho, hlisted, hpending⟩)
        · exact .inr ⟨o, ho, hpending⟩
      · intro id hid
        obtain ⟨o, ho, -, hpending⟩ := mem_pendingOrders.mp hid
        exact ⟨acquire_mem c' hid, o, ho, hpending⟩
    · exact (hphases c' call' hother).acquire _ (fun _ => id) fun _ => lock_of_acquire hfree
  | @finished c db hends heffect =>
    have hactor : a.actor = some c := by
      rcases hends with hcall | rfl
      · exact actor_of_call? hcall
      · rfl
    have hc : c' ≠ c := by
      rintro rfl
      rw [finish_calls_self] at hcall'
      cases hcall'
    rw [finish_calls_ne _ hc] at hcall'
    refine (hphases c' call' hcall').frame a ?_ (rowsMove_of_effect hphases heffect)
      (fun _ => lock_of_release hc) fun _ => lock_of_release hc
    intro hother
    rw [actor_of_call? hother] at hactor
    exact hc (Option.some.inj hactor)

end Step

/-! ## The tables -/

/-- The order of an attempt exists, for the attempt's amount; it waits for payment only
while the attempt is open, and is fulfilled only with a succeeded attempt. -/
def Payable (db : Db) (p : PaymentAttempt) : Prop :=
  ∃ o, db.orders.find? p.orderId = some o ∧ p.amount = o.amount ∧
    (o.status = .pendingPayment → p.status = .created ∨ p.status = .pending) ∧
    (o.status = .fulfilled → p.status = .succeeded)

/-- The rows of orders, attempts and items fit together. -/
structure SoundDb (db : Db) : Prop where
  attempt : ∀ id p, db.attempts.find? id = some p → Payable db p
  tradeNo : ∀ id id' p p', db.attempts.find? id = some p → db.attempts.find? id' = some p' →
    p.outTradeNo = p'.outTradeNo → id = id'
  oneAttempt : ∀ id id' p p', db.attempts.find? id = some p → db.attempts.find? id' = some p' →
    p.orderId = p'.orderId → id = id'
  item : ∀ id i, db.items.find? id = some i → ∃ o, db.orders.find? i.orderId = some o
  oneItem : ∀ id id' i i', db.items.find? id = some i → db.items.find? id' = some i' →
    i.orderId = i'.orderId → id = id'
  member : ∀ id userId, db.membershipOrders.find? id = some userId →
    ∃ o, db.orders.find? id = some o ∧ o.buyerId = userId

theorem SoundDb.withNotifications (h : SoundDb db) (n : Table String PaymentNotification) :
    SoundDb (withNotifications db n) :=
  ⟨h.attempt, h.tradeNo, h.oneAttempt, h.item, h.oneItem, h.member⟩

theorem soundDb_empty : SoundDb .empty := by
  constructor
  · intro id p hp
    cases hp
  · intro id id' p p' hp
    cases hp
  · intro id id' p p' hp
    cases hp
  · intro id i hi
    cases hi
  · intro id id' i i' hi
    cases hi
  · intro id userId hid
    cases hid

theorem SoundDb.locked (hs : SoundDb db) (hl : Locked db t) :
    (t.orderStatus = .pendingPayment → t.status = .created ∨ t.status = .pending) ∧
    (t.orderStatus = .fulfilled → t.status = .succeeded) := by
  obtain ⟨p, hp, hporder, hpstatus, -⟩ := hl.attempt
  obtain ⟨o, ho, hostatus, -⟩ := hl.order
  obtain ⟨o', ho', -, hwaiting, hdone⟩ := hs.attempt _ p hp
  rw [hporder, ho] at ho'
  obtain rfl := Option.some.inj ho'
  rw [← hpstatus, ← hostatus]
  exact ⟨hwaiting, hdone⟩

theorem SoundDb.unpaid (hs : SoundDb db) (hl : Locked db t)
    (hpending : t.orderStatus = .pendingPayment) : unpaid t = true :=
  unpaid_iff.mpr ⟨(hs.locked hl).1 hpending, hpending⟩

theorem SoundDb.succeeded (hs : SoundDb db) (hl : Locked db t)
    (hfulfilled : t.orderStatus = .fulfilled) : t.status = .succeeded :=
  (hs.locked hl).2 hfulfilled

theorem SoundDb.update (hs : SoundDb db) (hrows : RowsMove db db' orderFree attemptFree)
    (hitems : db'.items = db.items) (hmembers : db'.membershipOrders = db.membershipOrders)
    (hattempts : ∀ id p', db'.attempts.find? id = some p' →
      ∃ p, db.attempts.find? id = some p ∧ p'.outTradeNo = p.outTradeNo ∧
        p'.orderId = p.orderId ∧ Payable db' p') :
    SoundDb db' := by
  constructor
  · intro id p hp
    obtain ⟨-, -, -, -, hpayable⟩ := hattempts id p hp
    exact hpayable
  · intro id id' p p' hp hp' heq
    obtain ⟨q, hq, hno, -⟩ := hattempts id p hp
    obtain ⟨q', hq', hno', -⟩ := hattempts id' p' hp'
    exact hs.tradeNo id id' q q' hq hq' (by rw [← hno, ← hno', heq])
  · intro id id' p p' hp hp' heq
    obtain ⟨q, hq, -, horder, -⟩ := hattempts id p hp
    obtain ⟨q', hq', -, horder', -⟩ := hattempts id' p' hp'
    exact hs.oneAttempt id id' q q' hq hq' (by rw [← horder, ← horder', heq])
  · intro id i hi
    rw [hitems] at hi
    obtain ⟨o, ho⟩ := hs.item id i hi
    obtain ⟨status, ho', -⟩ := hrows.order _ o ho
    exact ⟨_, ho'⟩
  · rw [hitems]
    exact hs.oneItem
  · intro id userId hid
    rw [hmembers] at hid
    obtain ⟨o, ho, hbuyer⟩ := hs.member id userId hid
    obtain ⟨status, ho', -⟩ := hrows.order _ o ho
    exact ⟨_, ho', hbuyer⟩

/-- An attempt stays payable when its order keeps its status with it, or goes to a
status the attempt is ready for. -/
theorem Payable.update {p p' : PaymentAttempt} (h : Payable db p)
    (horder : p'.orderId = p.orderId) (hamount : p'.amount = p.amount)
    (hmove : ∀ o, db.orders.find? p.orderId = some o → ∃ status,
      db'.orders.find? p.orderId = some { o with status } ∧
        (status = o.status ∧ p'.status = p.status ∨
          status ≠ .pendingPayment ∧ (status = .fulfilled → p'.status = .succeeded))) :
    Payable db' p' := by
  obtain ⟨o, ho, heq, hopen, hdone⟩ := h
  obtain ⟨status, ho', hstatus⟩ := hmove o ho
  refine ⟨{ o with status }, by rw [horder]; exact ho', hamount.trans heq, ?_⟩
  show (status = .pendingPayment → _) ∧ (status = .fulfilled → _)
  rcases hstatus with ⟨hsame, hp⟩ | ⟨hnot, hfulfilled⟩
  · rw [hp, hsame]
    exact ⟨hopen, hdone⟩
  · exact ⟨fun hpending => absurd hpending hnot, hfulfilled⟩

theorem soundDb_of_handled {pays reverses : Prop} (hs : SoundDb db) (hl : Locked db t)
    (h : Handled pays reverses t db db') : SoundDb db' := by
  have hsame := sameItems_of_handled h
  have hrows : RowsMove db db' (fun _ => True) fun _ => True :=
    rowsMove_of_handled hl trivial trivial h
  refine hs.update hrows hsame.items hsame.membershipOrders fun id p' hp' => ?_
  rcases handled_rows h with ⟨horders, hattempts⟩ | ⟨status, hmove, -, horders, hattempts⟩
  · rw [hattempts] at hp'
    refine ⟨p', hp', rfl, rfl, (hs.attempt id p' hp').update rfl rfl fun o ho => ?_⟩
    exact ⟨o.status, by rw [horders]; exact ho, .inl ⟨rfl, rfl⟩⟩
  · -- the locked order has the new status, every other order its own
    have horder : ∀ (p : PaymentAttempt) (o : Order), db.orders.find? p.orderId = some o →
        p.orderId = t.orderId ∧ db'.orders.find? p.orderId = some { o with status } ∨
        p.orderId ≠ t.orderId ∧ db'.orders.find? p.orderId = some o := by
      intro p o ho
      rw [horders]
      by_cases hid : p.orderId = t.orderId
      · refine .inl ⟨hid, ?_⟩
        rw [Table.find?_modify, if_pos hid, ho]
        rfl
      · refine .inr ⟨hid, ?_⟩
        rw [Table.find?_modify_ne _ _ hid]
        exact ho
    rcases hattempts with ⟨hnot, hattempts⟩ | ⟨st, tradeNo, hdone, hattempts⟩
    · rw [hattempts] at hp'
      refine ⟨p', hp', rfl, rfl, (hs.attempt id p' hp').update rfl rfl fun o ho => ?_⟩
      rcases horder p' o ho with ⟨-, ho'⟩ | ⟨-, ho'⟩
      · exact ⟨status, ho', .inr ⟨hmove.not_pending, fun h => absurd h hnot⟩⟩
      · exact ⟨o.status, ho', .inl ⟨rfl, rfl⟩⟩
    · obtain ⟨q, hq, hqorder, -⟩ := hl.attempt
      rw [hattempts, Table.find?_modify] at hp'
      split at hp'
      · next hid =>
        obtain ⟨p, hp, rfl⟩ := Option.map_eq_some_iff.mp hp'
        refine ⟨p, hp, rfl, rfl, (hs.attempt id p hp).update rfl rfl fun o ho => ?_⟩
        rw [hid, hq] at hp
        obtain rfl := Option.some.inj hp
        rcases horder q o ho with ⟨-, ho'⟩ | ⟨hne, -⟩
        · exact ⟨status, ho', .inr ⟨hmove.not_pending, hdone⟩⟩
        · exact absurd hqorder hne
      · next hid =>
        refine ⟨p', hp', rfl, rfl, (hs.attempt id p' hp').update rfl rfl fun o ho => ?_⟩
        rcases horder p' o ho with ⟨heq, -⟩ | ⟨-, ho'⟩
        · exact absurd (hs.oneAttempt id t.id p' q hp' hq (heq.trans hqorder.symm)) hid
        · exact ⟨o.status, ho', .inl ⟨rfl, rfl⟩⟩

/-- What a checkout knows of the attempts and orders it is going to close. -/
structure Closable (db : Db) (attemptIds orderIds : List Uuid) : Prop where
  attempt : ∀ id ∈ attemptIds, ∃ p, db.attempts.find? id = some p ∧ p.status = .created ∧
    (p.orderId ∈ orderIds ∨ ∃ o, db.orders.find? p.orderId = some o ∧ o.status ≠ .pendingPayment)
  order : ∀ id ∈ orderIds, ∃ o, db.orders.find? id = some o ∧ o.status = .pendingPayment

theorem closable_of_phase {s : State} {offer : PublishedOfferSnapshot} {expiresAt : Nat}
    {attemptIds : List Uuid}
    (h : PhaseOk s c (.checkout buyerId offer expiresAt (.ordersClosed attemptIds orderIds))) :
    Closable s.db attemptIds orderIds :=
  ⟨fun id hid => (h.1 id hid).2, fun id hid => (h.2 id hid).2⟩

theorem rowsMove_of_closable {attemptIds : List Uuid} (h : Closable db attemptIds orderIds) :
    RowsMove db (closeListed db attemptIds orderIds) (fun _ => True) fun _ => True := by
  apply rowsMove_closeListed
  · intro id hid
    obtain ⟨o, ho, hpending⟩ := h.order id hid
    refine ⟨trivial, fun o' ho' => ?_⟩
    rw [ho] at ho'
    rw [← Option.some.inj ho']
    exact hpending
  · intro id _
    trivial

theorem soundDb_closeListed {attemptIds : List Uuid} (hs : SoundDb db)
    (hc : Closable db attemptIds orderIds) : SoundDb (closeListed db attemptIds orderIds) := by
  refine hs.update (rowsMove_of_closable hc) rfl rfl fun id p' hp' => ?_
  rw [find?_closeListed_attempts] at hp'
  obtain ⟨p, hp, hp'⟩ := Option.map_eq_some_iff.mp hp'
  have horder : ∀ o, db.orders.find? p.orderId = some o →
      (closeListed db attemptIds orderIds).orders.find? p.orderId =
        some (if p.orderId ∈ orderIds then { o with status := .closed } else o) := by
    intro o ho
    rw [find?_closeListed_orders, ho]
    rfl
  by_cases hlisted : p.orderId ∈ orderIds
  · have hclosed : ∀ (q : PaymentAttempt) (o : Order), db.orders.find? p.orderId = some o →
        ∃ status, (closeListed db attemptIds orderIds).orders.find? p.orderId =
          some { o with status } ∧ (status = o.status ∧ q.status = p.status ∨
            status ≠ .pendingPayment ∧ (status = .fulfilled → q.status = .succeeded)) := by
      intro q o ho
      rw [horder o ho, if_pos hlisted]
      exact ⟨.closed, rfl, .inr ⟨by simp, by simp⟩⟩
    split at hp'
    · subst hp'
      exact ⟨p, hp, rfl, rfl, (hs.attempt id p hp).update rfl rfl (hclosed _)⟩
    · subst hp'
      exact ⟨p, hp, rfl, rfl, (hs.attempt id p hp).update rfl rfl (hclosed _)⟩
  · split at hp'
    · next hmem =>
      subst hp'
      refine ⟨p, hp, rfl, rfl, (hs.attempt id p hp).update rfl rfl fun o ho => ?_⟩
      rw [horder o ho, if_neg hlisted]
      -- the order of the locked attempt has stopped waiting, and was not paid with it
      obtain ⟨q, hq, hcreated, hmemOrder | ⟨o', ho', hnot⟩⟩ := hc.attempt id hmem
      · rw [hp] at hq
        rw [← Option.some.inj hq] at hmemOrder
        exact absurd hmemOrder hlisted
      · rw [hp] at hq
        obtain rfl := Option.some.inj hq
        rw [ho] at ho'
        obtain rfl := Option.some.inj ho'
        refine ⟨o.status, rfl, .inr ⟨hnot, fun hfulfilled => ?_⟩⟩
        obtain ⟨o₁, ho₁, -, -, hdone⟩ := hs.attempt id p hp
        rw [ho] at ho₁
        obtain rfl := Option.some.inj ho₁
        rw [hdone hfulfilled] at hcreated
        cases hcreated
    · subst hp'
      refine ⟨p, hp, rfl, rfl, (hs.attempt id p hp).update rfl rfl fun o ho => ?_⟩
      rw [horder o ho, if_neg hlisted]
      exact ⟨o.status, rfl, .inl ⟨rfl, rfl⟩⟩

theorem insert_inj {δ : Type} {t t' : Table Uuid ρ} {k : Uuid} {r : ρ}
    (h : t.insert? k r = some t') (f : ρ → δ) (hnew : ∀ id q, t.find? id = some q → f q ≠ f r)
    (hinj : ∀ id id' q q', t.find? id = some q → t.find? id' = some q' → f q = f q' → id = id') :
    ∀ id id' q q', t'.find? id = some q → t'.find? id' = some q' → f q = f q' → id = id' := by
  intro id id' q q' hq hq' heq
  rw [Table.find?_insert h] at hq hq'
  split at hq
  · split at hq'
    · next hid hid' => rw [hid, hid']
    · rw [← Option.some.inj hq] at heq
      exact absurd heq.symm (hnew id' q' hq')
  · split at hq'
    · rw [← Option.some.inj hq'] at heq
      exact absurd heq (hnew id q hq)
    · exact hinj id id' q q' hq hq' heq

variable {attemptId : Uuid} {outTradeNo : String}

theorem payable_of_newPayment (hs : SoundDb db)
    (h : NewPayment db db' buyerId orderId attemptId outTradeNo) :
    (∀ id p, db'.attempts.find? id = some p → Payable db' p) ∧
    (∀ id id' p p', db'.attempts.find? id = some p → db'.attempts.find? id' = some p' →
      p.outTradeNo = p'.outTradeNo → id = id') ∧
    ∀ id id' p p', db'.attempts.find? id = some p → db'.attempts.find? id' = some p' →
      p.orderId = p'.orderId → id = id' := by
  obtain ⟨o, q, -, hpending, hqorder, hqno, hqcreated, hqamount, horders, hattempts⟩ := h.inserted
  refine ⟨?_, ?_, ?_⟩
  · intro id p hp
    rw [Table.find?_insert hattempts] at hp
    split at hp
    · obtain rfl := Option.some.inj hp
      refine ⟨o, ?_, hqamount, fun _ => .inl hqcreated, fun hfulfilled => ?_⟩
      · rw [Table.find?_insert horders, if_pos hqorder]
      · rw [hpending] at hfulfilled
        cases hfulfilled
    · obtain ⟨o', ho', hrest⟩ := hs.attempt id p hp
      exact ⟨o', Table.find?_of_insert horders ho', hrest⟩
  · exact insert_inj hattempts PaymentAttempt.outTradeNo
      (fun id p hp => by rw [hqno]; exact h.newTradeNo id p hp) hs.tradeNo
  · exact insert_inj hattempts PaymentAttempt.orderId
      (fun id p hp => by rw [hqorder]; exact h.newOrder id p hp) hs.oneAttempt

theorem soundDb_of_placed {itemId : Uuid} {offer : PublishedOfferSnapshot} (hs : SoundDb db)
    (h : Placed db db' buyerId offer orderId itemId attemptId outTradeNo) : SoundDb db' := by
  obtain ⟨hattempt, htradeNo, honeAttempt⟩ := payable_of_newPayment hs h.payment
  obtain ⟨o, q, hbuyer, -, -, -, -, -, horders, -⟩ := h.payment.inserted
  obtain ⟨j, hj, -, -, hitems⟩ := h.item
  have hnew : db.orders.find? orderId = none := (Table.insert?_eq_some horders).1
  -- no item of the table has the new order
  have hfresh : ∀ id i, db.items.find? id = some i → i.orderId ≠ orderId := by
    intro id i hi heq
    obtain ⟨o', ho'⟩ := hs.item id i hi
    rw [heq, hnew] at ho'
    cases ho'
  refine ⟨hattempt, htradeNo, honeAttempt, ?_, ?_, ?_⟩
  · intro id i hi
    rw [Table.find?_insert hitems] at hi
    split at hi
    · obtain rfl := Option.some.inj hi
      exact ⟨o, by rw [Table.find?_insert horders, if_pos hj]⟩
    · obtain ⟨o', ho'⟩ := hs.item id i hi
      exact ⟨o', Table.find?_of_insert horders ho'⟩
  · exact insert_inj hitems OrderItem.orderId
      (fun id i hi => by rw [hj]; exact hfresh id i hi) hs.oneItem
  · intro id userId hid
    rw [h.frame.2.2.2.2.2] at hid
    obtain ⟨o', ho', hbuyer⟩ := hs.member id userId hid
    exact ⟨o', Table.find?_of_insert horders ho', hbuyer⟩

theorem soundDb_of_joined {userId : Uuid} (hs : SoundDb db)
    (h : Joined db db' userId orderId attemptId outTradeNo) : SoundDb db' := by
  obtain ⟨hattempt, htradeNo, honeAttempt⟩ := payable_of_newPayment hs h.payment
  obtain ⟨o, q, hbuyer, -, -, -, -, -, horders, -⟩ := h.payment.inserted
  refine ⟨hattempt, htradeNo, honeAttempt, ?_, ?_, ?_⟩
  · intro id i hi
    rw [h.frame.1] at hi
    obtain ⟨o', ho'⟩ := hs.item id i hi
    exact ⟨o', Table.find?_of_insert horders ho'⟩
  · rw [h.frame.1]
    exact hs.oneItem
  · intro id user hid
    rw [Table.find?_insert h.intent] at hid
    split at hid
    · next heq =>
      obtain rfl := Option.some.inj hid
      exact ⟨o, by rw [Table.find?_insert horders, if_pos heq], hbuyer⟩
    · obtain ⟨o', ho', hbuyer'⟩ := hs.member id user hid
      exact ⟨o', Table.find?_of_insert horders ho', hbuyer'⟩

/-! ## Reachable states -/

structure Sound (s : State) : Prop where
  phases : PhasesOk s
  db : SoundDb s.db

/-- Every effect leaves the tables in agreement. -/
theorem soundDb_of_effect {settings : Settings} {s : State} {a : Action} (hs : Sound s)
    (h : Effect settings s a db) : SoundDb db := by
  cases h with
  | quiet => exact hs.db
  | @handled t n _ hl _ hhandled _ =>
    exact soundDb_of_handled (hs.db.withNotifications n) (hl.withNotifications n) hhandled
  | placed _ hcall hplaced =>
    exact soundDb_of_placed (soundDb_closeListed hs.db (closable_of_phase (hs.phases _ _ hcall)))
      (placeOrder_commits hplaced)
  | joined _ _ hjoined => exact soundDb_of_joined hs.db (createMembershipOrder_commits hjoined)
  | granted _ => exact ⟨hs.db.attempt, hs.db.tradeNo, hs.db.oneAttempt, hs.db.item, hs.db.oneItem, hs.db.member⟩
  | paidOut _ _ => exact ⟨hs.db.attempt, hs.db.tradeNo, hs.db.oneAttempt, hs.db.item, hs.db.oneItem, hs.db.member⟩

/-- Every step has one of the effects on the tables. -/
theorem effect_of_step {settings : Settings} {s s' : State} {a : Action}
    (h : step settings s a = some s') : Effect settings s a s'.db := by
  cases step_cases h with
  | kept _ heffect _ => exact heffect
  | finished _ heffect => exact heffect
  | resumed _ _ _ _ => exact .quiet
  | pendingRead _ _ => exact .quiet
  | attemptsLocked _ _ _ => exact .quiet
  | ordersRead _ _ => exact .quiet
  | ordersLocked _ _ _ => exact .quiet

theorem sound_of_init {s : State} (h : init s) : Sound s := by
  subst h
  refine ⟨fun c call hcall => ?_, soundDb_empty⟩
  cases hcall

/-- Every step keeps locks, phases and tables sound. -/
theorem sound_of_step {settings : Settings} {s s' : State} {a : Action} (hs : Sound s)
    (h : step settings s a = some s') : Sound s' :=
  ⟨phasesOk_of_step hs.phases h, soundDb_of_effect hs (effect_of_step h)⟩

/-- Every reachable state is sound. -/
theorem sound_reachable {settings : Settings} {ok : State → Action → Prop} {s : State}
    (hr : Reach init (step settings) ok s) : Sound s :=
  hr.invariant (fun _ => sound_of_init) fun _ _ _ hs _ hstep => sound_of_step hs hstep

end FractalStudio.Commerce
