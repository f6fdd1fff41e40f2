import FractalStudio.Commerce.ExactlyOnce

/-!
# One licence of an asset, one pending order of a listing

Ownership is read when a checkout starts, without a lock, and never when a payment arrives; the
orders a checkout closes are those of its listing that it could see and lock. Both laws hold as long
as no checkout commits over a pending order it did not lock and no payment overtakes a checkout that
has read the ownership. What carries them is that a buyer with a pending order for an asset, or with
a checkout past that read, has no licence of it.
-/
namespace FractalStudio.Commerce

open Platform Finance Txn Transition

def activeLicences (entitlements : List Entitlement) (userId assetId : Uuid) : Nat :=
  entitlements.countP fun e => e.userId = userId && e.assetId = assetId && e.status = .active

/-- An order of the buyer waits for the payment of an item with the property. -/
def Awaiting (p : OrderItem → Prop) (db : Db) (buyerId id : Uuid) : Prop :=
  (∃ o, db.orders.find? id = some o ∧ o.buyerId = buyerId ∧ o.status = .pendingPayment) ∧
  ∃ itemId i, db.items.find? itemId = some i ∧ i.orderId = id ∧ p i

def AtMostOne (p : OrderItem → Prop) (db : Db) : Prop :=
  ∀ buyerId id id', Awaiting p db buyerId id → Awaiting p db buyerId id' → id = id'

/-- The orders of the buyer that wait for the payment of the listing or of its asset. -/
def rivalOrders (db : Db) (buyerId : Uuid) (offer : PublishedOfferSnapshot) : List Uuid :=
  (db.orders.select fun id o => o.buyerId = buyerId && o.status = .pendingPayment &&
    !(db.items.select fun _ i => i.orderId = id &&
      (i.listingId = offer.listingId || i.assetId = offer.assetId)).isEmpty).map Prod.fst

/-- A checkout that commits has locked the orders that wait for its listing or its asset. -/
def rivalsLocked (s : State) : Action → Bool
  | .commitCheckout c _ _ _ _ =>
    match s.calls c with
    | some (.checkout buyerId offer _ (.ordersClosed _ orderIds)) =>
      (rivalOrders s.db buyerId offer).all fun id => orderIds.contains id
    | _ => true
  | _ => true

/-- A payment that settles finds no checkout of its buyer and asset past the ownership check. -/
def Unraced (s : State) (a : Action) : Prop :=
  ∀ t, a.settles s = some t → ∀ c call x, s.calls c = some call → call.buying = some x →
    x.1 = t.buyerId → ∀ i ∈ t.items, i.2.assetId ≠ x.2

def Uncontested (s : State) (a : Action) : Prop := rivalsLocked s a = true ∧ Unraced s a

/-! ## Licences -/

theorem activeLicences_eq_zero {db : Db} {userId assetId : Uuid}
    (h : hasActiveEntitlement db userId assetId = false) :
    activeLicences db.entitlements userId assetId = 0 := by
  unfold activeLicences
  rw [List.countP_eq_zero]
  intro e he hactive
  have hany : hasActiveEntitlement db userId assetId = true :=
    List.any_eq_true.mpr ⟨e, he, hactive⟩
  rw [h] at hany
  cases hany

/-- A grant adds at most one licence, and only to the buyer of the item. -/
theorem activeLicences_grantEntitlement (buyerId : Uuid) (entitlements : List Entitlement)
    (item : Uuid × OrderItem) (userId assetId : Uuid) :
    activeLicences (grantEntitlement buyerId entitlements item) userId assetId ≤
      activeLicences entitlements userId assetId +
        if buyerId = userId ∧ item.2.assetId = assetId then 1 else 0 := by
  unfold grantEntitlement
  split
  · exact Nat.le_add_right _ _
  · unfold activeLicences
    rw [List.countP_append, List.countP_singleton]
    by_cases hmatch : buyerId = userId ∧ item.2.assetId = assetId
    · rw [if_pos hmatch]
      split <;> omega
    · rw [if_neg hmatch, if_neg]
      simpa using hmatch

theorem activeLicences_revokeEntitlements_le (db : Db) (ids : List Uuid) (userId assetId : Uuid) :
    activeLicences (revokeEntitlements db ids).entitlements userId assetId ≤
      activeLicences db.entitlements userId assetId := by
  unfold activeLicences revokeEntitlements
  rw [List.countP_map]
  apply List.countP_mono_left
  intro e _ h
  simp only [Function.comp_apply] at h
  split at h
  · simp at h
  · exact h

theorem orderItems_length_le_one {db : Db} (hs : SoundDb db) (orderId : Uuid) :
    (orderItems db orderId).length ≤ 1 := by
  unfold orderItems
  rw [List.length_insertionSort, ← List.length_map Prod.fst]
  apply Table.length_le_one (Table.nodup_select _ _)
  intro id hid id' hid'
  obtain ⟨i, hi, horder⟩ := mem_map_select.mp hid
  obtain ⟨i', hi', horder'⟩ := mem_map_select.mp hid'
  rw [decide_eq_true_eq] at horder horder'
  exact hs.oneItem id id' i i' hi hi' (horder.trans horder'.symm)

section Step
variable {settings : Settings} {s s' : State} {a : Action} {db : Db}

/-- A settlement of the order the user has for the asset, which waits no longer. -/
def Settling (s : State) (a : Action) (db : Db) (userId assetId : Uuid) : Prop :=
  ∃ t, a.settles s = some t ∧ t.buyerId = userId ∧ (∃ i ∈ t.items, i.2.assetId = assetId) ∧
    Awaiting (·.assetId = assetId) s.db userId t.orderId ∧
    ∀ o, db.orders.find? t.orderId = some o → o.status ≠ .pendingPayment

theorem awaiting_of_unpaid {t : LockedPaymentAttempt} {i : Uuid × OrderItem} {p : OrderItem → Prop}
    (hl : Locked db t) (hunpaid : unpaid t = true) (hi : i ∈ t.items) (hp : p i.2) :
    Awaiting p db t.buyerId t.orderId := by
  obtain ⟨o, ho, hstatus, hbuyer, -⟩ := hl.order
  rw [hl.items] at hi
  obtain ⟨hitem, horder⟩ := mem_orderItems.mp hi
  exact ⟨⟨o, ho, hbuyer, hstatus.trans (unpaid_iff.mp hunpaid).2⟩, i.1, i.2, hitem, horder, hp⟩

/-- Only the settlement of the user's order for the asset adds a licence, and it adds one. -/
theorem licences_of_handled {t : LockedPaymentAttempt} {n : Table String PaymentNotification}
    (hs : SoundDb s.db) (hl : Locked s.db t)
    (h : Handled (a.settles s = some t) (a.reverses s = some t) t (withNotifications s.db n) db)
    (userId assetId : Uuid) :
    activeLicences db.entitlements userId assetId ≤ activeLicences s.db.entitlements userId assetId ∨
    activeLicences db.entitlements userId assetId ≤
      activeLicences s.db.entitlements userId assetId + 1 ∧ Settling s a db userId assetId := by
  cases h with
  | nothing => exact .inl le_rfl
  | closed _ => exact .inl le_rfl
  | reversed _ _ _ _ => exact .inl (activeLicences_revokeEntitlements_le _ _ userId assetId)
  | reviewed revoke _ _ =>
    cases revoke with
    | false => exact .inl le_rfl
    | true => exact .inl (activeLicences_revokeEntitlements_le _ _ userId assetId)
  | excepted _ => exact .inl le_rfl
  | @settled tradeNo books hpays hunpaid _ =>
    have hentitlements : (paid (withNotifications s.db n) t tradeNo books).entitlements =
        t.items.foldl (grantEntitlement t.buyerId) s.db.entitlements := by
      unfold paid
      dsimp only
      split <;> rfl
    have hitems := orderItems_length_le_one hs t.orderId
    rw [← hl.items] at hitems
    rw [hentitlements]
    -- the order has at most one item
    cases hlist : t.items with
    | nil => exact .inl le_rfl
    | cons item rest =>
      obtain rfl : rest = [] := by
        rw [hlist, List.length_cons] at hitems
        exact List.length_eq_zero_iff.mp (by omega)
      have hgrant := activeLicences_grantEntitlement t.buyerId s.db.entitlements item userId assetId
      have hmem : item ∈ t.items := by
        rw [hlist]
        exact List.mem_cons_self
      split at hgrant
      · next hmatch =>
        obtain ⟨rfl, rfl⟩ := hmatch
        refine .inr ⟨hgrant, t, hpays, rfl, ⟨item, hmem, rfl⟩, awaiting_of_unpaid hl hunpaid hmem rfl,
          fun o ho => ?_⟩
        rw [paid_orders, Table.find?_modify_self] at ho
        obtain ⟨o₀, -, rfl⟩ := Option.map_eq_some_iff.mp ho
        simp
      · exact .inl hgrant

/-- A licence more comes from a settlement alone. -/
theorem licences_of_effect (hs : SoundDb s.db) (h : Effect settings s a db)
    (userId assetId : Uuid) :
    activeLicences db.entitlements userId assetId ≤ activeLicences s.db.entitlements userId assetId ∨
    activeLicences db.entitlements userId assetId ≤
      activeLicences s.db.entitlements userId assetId + 1 ∧ Settling s a db userId assetId := by
  cases h with
  | quiet => exact .inl le_rfl
  | handled hl _ hdone _ => exact licences_of_handled hs hl hdone userId assetId
  | placed _ _ hplaced =>
    rw [(placeOrder_commits hplaced).frame.2.2.1]
    exact .inl le_rfl
  | joined _ _ hjoined =>
    rw [(createMembershipOrder_commits hjoined).frame.2.2.2.1]
    exact .inl le_rfl
  | granted _ => exact .inl le_rfl
  | paidOut _ _ => exact .inl le_rfl

/-! ## Pending orders -/

theorem Awaiting.before {p : OrderItem → Prop} {db db' : Db} {orderFree attemptFree : Uuid → Prop}
    {buyerId id : Uuid} (hs : SoundDb db) (hrows : RowsMove db db' orderFree attemptFree)
    (hitems : db'.items = db.items) (h : Awaiting p db' buyerId id) : Awaiting p db buyerId id := by
  obtain ⟨⟨o, ho, hbuyer, hpending⟩, itemId, i, hi, horder, hp⟩ := h
  rw [hitems] at hi
  rcases hrows.pending ho hpending with hold | hnew
  · exact ⟨⟨o, hold, hbuyer, hpending⟩, itemId, i, hi, horder, hp⟩
  · -- an order with an item was there
    obtain ⟨o₀, ho₀⟩ := hs.item itemId i hi
    rw [horder, hnew] at ho₀
    cases ho₀

/-- After a checkout's commit an order that waits is its own, or one that waited before and that the
checkout did not close. -/
theorem awaiting_of_placed {p : OrderItem → Prop} {db db' : Db} {attemptIds orderIds : List Uuid}
    {buyer : Uuid} {offer : PublishedOfferSnapshot} {orderId itemId attemptId : Uuid}
    {outTradeNo : String} (hs : SoundDb db)
    (hplaced : Placed (closeListed db attemptIds orderIds) db' buyer offer orderId itemId attemptId
      outTradeNo) {buyerId id : Uuid} (h : Awaiting p db' buyerId id) :
    (id = orderId ∧ buyerId = buyer ∧
      ∃ i : OrderItem, i.listingId = offer.listingId ∧ i.assetId = offer.assetId ∧ p i) ∨
    Awaiting p db buyerId id ∧ id ∉ orderIds := by
  obtain ⟨⟨o, ho, hbuyer, hpending⟩, itemId', i, hi, horder, hp⟩ := h
  obtain ⟨new, _, hnewBuyer, -, -, -, -, -, horders, -⟩ := hplaced.payment.inserted
  obtain ⟨j, hj, hjlisting, hjasset, hitems⟩ := hplaced.item
  have hfresh : db.orders.find? orderId = none := by
    have hnone := (Table.insert?_eq_some horders).1
    rw [find?_closeListed_orders, Option.map_eq_none_iff] at hnone
    exact hnone
  -- an item is the new one, or its order was there
  have hitem : i = j ∧ i.orderId = orderId ∨ db.items.find? itemId' = some i ∧ i.orderId ≠ orderId := by
    rw [Table.find?_insert hitems] at hi
    split at hi
    · obtain rfl := Option.some.inj hi
      exact .inl ⟨rfl, hj⟩
    · refine .inr ⟨hi, fun heq => ?_⟩
      obtain ⟨o₀, ho₀⟩ := hs.item itemId' i hi
      rw [heq, hfresh] at ho₀
      cases ho₀
  rw [Table.find?_insert horders] at ho
  rcases hitem with ⟨rfl, hown⟩ | ⟨hold, hother⟩
  · left
    have hid : id = orderId := horder.symm.trans hown
    rw [if_pos hid] at ho
    obtain rfl := Option.some.inj ho
    exact ⟨hid, hbuyer.symm.trans hnewBuyer, i, hjlisting, hjasset, hp⟩
  · right
    have hid : id ≠ orderId := by
      rw [← horder]
      exact hother
    rw [if_neg hid, find?_closeListed_orders] at ho
    obtain ⟨o₀, ho₀, heq⟩ := Option.map_eq_some_iff.mp ho
    split at heq
    · subst heq
      cases hpending
    · next hnotClosed =>
      subst heq
      exact ⟨⟨⟨o₀, ho₀, hbuyer, hpending⟩, itemId', i, hold, horder, hp⟩, hnotClosed⟩

theorem mem_rivalOrders {buyerId id : Uuid} {offer : PublishedOfferSnapshot} :
    id ∈ rivalOrders db buyerId offer ↔
      Awaiting (fun i => i.listingId = offer.listingId ∨ i.assetId = offer.assetId) db buyerId id := by
  rw [rivalOrders, mem_map_select]
  simp only [Bool.and_eq_true, Bool.or_eq_true, decide_eq_true_eq, exists_of_not_isEmpty, Awaiting,
    and_assoc]
  constructor
  · rintro ⟨o, ho, hbuyer, hpending, hitem⟩
    exact ⟨⟨o, ho, hbuyer, hpending⟩, hitem⟩
  · rintro ⟨⟨o, ho, hbuyer, hpending⟩, hitem⟩
    exact ⟨o, ho, hbuyer, hpending, hitem⟩

theorem mem_pendingOrdersForListing {buyerId listingId id : Uuid} :
    id ∈ pendingOrdersForListing db buyerId listingId ↔
      Awaiting (·.listingId = listingId) db buyerId id := by
  constructor
  · intro h
    obtain ⟨⟨id, o⟩, hr, rfl⟩ := List.mem_map.mp h
    obtain ⟨hmem, hpending⟩ := List.mem_filter.mp hr
    have ho := (Table.mem_select.mp hmem).1
    obtain ⟨⟨o', ho', hbuyer⟩, hitem⟩ := mem_ordersForListing.mp (List.mem_map.mpr ⟨_, hmem, rfl⟩)
    rw [ho] at ho'
    obtain rfl := Option.some.inj ho'
    exact ⟨⟨o, ho, hbuyer, of_decide_eq_true hpending⟩, hitem⟩
  · rintro ⟨⟨o, ho, hbuyer, hpending⟩, hitem⟩
    obtain ⟨⟨id', o'⟩, hmem, rfl⟩ := List.mem_map.mp (mem_ordersForListing.mpr ⟨⟨o, ho, hbuyer⟩, hitem⟩)
    have ho' := (Table.mem_select.mp hmem).1
    rw [ho] at ho'
    obtain rfl := Option.some.inj ho'
    exact List.mem_map.mpr ⟨_, List.mem_filter.mpr ⟨hmem, by simpa using hpending⟩, rfl⟩

/-- Two orders never wait for one listing, or one asset, when each checkout closes those it finds. -/
theorem atMostOne_of_effect {p : OrderItem → Prop} (hs : Sound s) (hone : AtMostOne p s.db)
    (hlocked : rivalsLocked s a = true)
    (hp : ∀ i j, p i → p j → i.listingId = j.listingId ∨ i.assetId = j.assetId)
    (h : Effect settings s a db) : AtMostOne p db := by
  have hrows := rowsMove_of_effect hs.phases h
  have hsame : db.items = s.db.items → AtMostOne p db := by
    intro hitems buyerId id id' hid hid'
    exact hone buyerId id id' (hid.before hs.db hrows hitems) (hid'.before hs.db hrows hitems)
  cases h with
  | quiet => exact hone
  | handled _ _ hdone _ => exact hsame (sameItems_of_handled hdone).items
  | @placed c buyer offer _ _ orderIds _ _ _ _ _ ha hcall hplaced =>
    have hplaced := placeOrder_commits hplaced
    -- an order that waits beside the new one would have been locked and closed
    have hall : ∀ {i : OrderItem}, i.listingId = offer.listingId → i.assetId = offer.assetId → p i →
        ∀ id, Awaiting p s.db buyer id → id ∈ orderIds := by
      intro i hlisting hasset hi id ⟨horder, itemId, j, hj, hid, hpj⟩
      rw [ha, rivalsLocked, hcall, List.all_eq_true] at hlocked
      refine List.contains_iff_mem.mp (hlocked id (mem_rivalOrders.mpr ⟨horder, itemId, j, hj, hid, ?_⟩))
      rw [← hlisting, ← hasset]
      exact hp j i hpj hi
    intro buyerId id id' hid hid'
    rcases awaiting_of_placed hs.db hplaced hid with ⟨rfl, rfl, i, hlisting, hasset, hi⟩ | ⟨hold, hnot⟩
    · rcases awaiting_of_placed hs.db hplaced hid' with ⟨rfl, -, -⟩ | ⟨hold', hnot'⟩
      · rfl
      · exact absurd (hall hlisting hasset hi id' hold') hnot'
    · rcases awaiting_of_placed hs.db hplaced hid' with ⟨rfl, rfl, i, hlisting, hasset, hi⟩ | ⟨hold', -⟩
      · exact absurd (hall hlisting hasset hi id hold) hnot
      · exact hone buyerId id id' hold hold'
  | joined _ _ hjoined => exact hsame (createMembershipOrder_commits hjoined).frame.1
  | granted _ => exact hsame rfl
  | paidOut _ _ => exact hsame rfl

theorem pendingOrdersForListing_length_le_one (listingId : Uuid)
    (h : AtMostOne (·.listingId = listingId) db) (buyerId : Uuid) :
    (pendingOrdersForListing db buyerId listingId).length ≤ 1 := by
  apply Table.length_le_one
  · have hsub := List.filter_sublist (p := fun r : Uuid × Order => r.2.status = .pendingPayment)
      (l := ordersForListing db buyerId listingId)
    exact (Table.nodup_select _ _).sublist (hsub.map Prod.fst)
  · intro id hid id' hid'
    exact h buyerId id id' (mem_pendingOrdersForListing.mp hid) (mem_pendingOrdersForListing.mp hid')

/-! ## The two laws -/

/-- A call past its ownership check was there before the step, or the check has just passed. -/
theorem buying_of_step (h : step settings s a = some s') {c : CallId} {call : Call}
    {x : Uuid × Uuid} (hcall : s'.calls c = some call) (hx : call.buying = some x) :
    (∃ call₀, s.calls c = some call₀ ∧ call₀.buying = some x) ∨
    s'.db = s.db ∧ hasActiveEntitlement s.db x.1 x.2 = false := by
  have hmoved : ∀ {c' : CallId} {call' call₀ : Call},
      Function.update s.calls c' (some call') c = some call → s.calls c' = some call₀ →
      call₀.buying = call'.buying → ∃ call₀, s.calls c = some call₀ ∧ call₀.buying = some x := by
    intro c' call' call₀ hupdate hcall₀ hbuying
    rcases call_of_update hupdate with ⟨rfl, rfl⟩ | ⟨-, hother⟩
    · exact ⟨call₀, hcall₀, hbuying.trans hx⟩
    · exact ⟨call, hother, hx⟩
  cases step_cases h with
  | kept _ _ _ => exact .inl ⟨call, hcall, hx⟩
  | resumed _ _ _ hchecked =>
    rcases call_of_update hcall with ⟨rfl, rfl⟩ | ⟨-, hother⟩
    · exact .inr ⟨rfl, hchecked x hx⟩
    · exact .inl ⟨call, hother, hx⟩
  | pendingRead _ hcall₀ => exact .inl (hmoved hcall hcall₀ rfl)
  | attemptsLocked _ hcall₀ _ => exact .inl (hmoved hcall hcall₀ rfl)
  | ordersRead _ hcall₀ => exact .inl (hmoved hcall hcall₀ rfl)
  | ordersLocked _ hcall₀ _ => exact .inl (hmoved hcall hcall₀ rfl)
  | @finished c' _ _ _ =>
    dsimp only [State.finish, State.withDb] at hcall
    have hother : c ≠ c' := by
      rintro rfl
      rw [Function.update_self] at hcall
      cases hcall
    rw [Function.update_of_ne hother] at hcall
    exact .inl ⟨call, hcall, hx⟩

/-- What an uncontested run keeps. -/
structure Kept (s : State) : Prop where
  sound : Sound s
  licence : ∀ userId assetId, activeLicences s.db.entitlements userId assetId ≤ 1
  listing : ∀ listingId, AtMostOne (·.listingId = listingId) s.db
  asset : ∀ assetId, AtMostOne (·.assetId = assetId) s.db
  awaiting : ∀ buyerId assetId id, Awaiting (·.assetId = assetId) s.db buyerId id →
    activeLicences s.db.entitlements buyerId assetId = 0
  buying : ∀ c call x, s.calls c = some call → call.buying = some x →
    activeLicences s.db.entitlements x.1 x.2 = 0

theorem kept_init (h : init s) : Kept s := by
  have hsound := sound_of_init h
  obtain rfl := h
  exact {
    sound := hsound
    licence := fun _ _ => Nat.zero_le 1
    listing := fun _ _ _ _ ⟨⟨_, ho, _⟩, _⟩ => nomatch ho
    asset := fun _ _ _ _ ⟨⟨_, ho, _⟩, _⟩ => nomatch ho
    awaiting := fun _ _ _ _ => rfl
    buying := fun _ _ _ hcall => nomatch hcall }

/-- An order that waits after a step waited before it, or is the order of a checkout that is past
its ownership check, whose commit grants nothing. -/
theorem awaiting_of_effect (hs : Sound s) (h : Effect settings s a db) {buyerId assetId id : Uuid}
    (hid : Awaiting (·.assetId = assetId) db buyerId id) :
    Awaiting (·.assetId = assetId) s.db buyerId id ∨
    db.entitlements = s.db.entitlements ∧
      ∃ c call, s.calls c = some call ∧ call.buying = some (buyerId, assetId) := by
  have hrows := rowsMove_of_effect hs.phases h
  cases h with
  | quiet => exact .inl hid
  | handled _ _ hdone _ => exact .inl (hid.before hs.db hrows (sameItems_of_handled hdone).items)
  | placed _ hcall hplaced =>
    have hplaced := placeOrder_commits hplaced
    rcases awaiting_of_placed hs.db hplaced hid with ⟨-, rfl, i, -, hasset, rfl⟩ | ⟨hold, -⟩
    · rw [hasset]
      exact .inr ⟨hplaced.frame.2.2.1, _, _, hcall, rfl⟩
    · exact .inl hold
  | joined _ _ hjoined =>
    exact .inl (hid.before hs.db hrows (createMembershipOrder_commits hjoined).frame.1)
  | granted _ => exact .inl (hid.before hs.db hrows rfl)
  | paidOut _ _ => exact .inl (hid.before hs.db hrows rfl)

/-- A settled order waited for its asset, so its buyer had no licence; afterwards no order and no
checkout of theirs is left for it. -/
theorem kept_step (hs : Kept s) (hok : Uncontested s a) (hstep : step settings s a = some s') :
    Kept s' := by
  obtain ⟨hlocked, hunraced⟩ := hok
  have heffect := effect_of_step hstep
  have hlicences := licences_of_effect hs.sound.db heffect
  constructor
  · exact sound_of_step hs.sound hstep
  · intro userId assetId
    rcases hlicences userId assetId with hle | ⟨hle, t, -, -, -, hold, -⟩
    · exact hle.trans (hs.licence userId assetId)
    · rw [hs.awaiting userId assetId t.orderId hold] at hle
      exact hle
  · intro listingId
    exact atMostOne_of_effect hs.sound (hs.listing listingId) hlocked
      (fun _ _ hi hj => .inl (hi.trans hj.symm)) heffect
  · intro assetId
    exact atMostOne_of_effect hs.sound (hs.asset assetId) hlocked
      (fun _ _ hi hj => .inr (hi.trans hj.symm)) heffect
  · intro buyerId assetId id hid
    rcases awaiting_of_effect hs.sound heffect hid with hold | ⟨hsame, c, call, hcall, hbuying⟩
    · rcases hlicences buyerId assetId with hle | ⟨-, t, -, -, -, hsettled, hpaid⟩
      · rw [hs.awaiting buyerId assetId id hold] at hle
        exact Nat.le_zero.mp hle
      · -- the settled order is this one, and it waits no longer
        obtain rfl := hs.asset assetId buyerId id t.orderId hold hsettled
        obtain ⟨⟨o, ho, -, hpending⟩, -⟩ := hid
        exact absurd hpending (hpaid o ho)
    · rw [hsame]
      exact hs.buying c call _ hcall hbuying
  · intro c call x hcall hx
    rcases buying_of_step hstep hcall hx with ⟨call₀, hcall₀, hbuying⟩ | ⟨hsame, hnone⟩
    · rcases hlicences x.1 x.2 with hle | ⟨-, t, hsettles, hbuyer, ⟨i, hi, hasset⟩, -⟩
      · rw [hs.buying c call₀ x hcall₀ hbuying] at hle
        exact Nat.le_zero.mp hle
      · exact absurd hasset (hunraced t hsettles c call₀ x hcall₀ hbuying hbuyer.symm i hi)
    · rw [hsame]
      exact activeLicences_eq_zero hnone

end Step

/-- A step moves only the call of its actor. -/
theorem calls_of_step {settings : Settings} {s s' : State} {a : Action} {c : CallId}
    (h : step settings s a = some s') (hc : a.actor ≠ some c) : s'.calls c = s.calls c := by
  have hne : ∀ {c' : CallId}, a.actor = some c' → c ≠ c' := by
    rintro c' hactor rfl
    exact hc hactor
  cases step_cases h with
  | kept _ _ _ => rfl
  | resumed hactor _ _ _ => exact Function.update_of_ne (hne hactor) _ _
  | pendingRead hactor _ => exact Function.update_of_ne (hne hactor) _ _
  | attemptsLocked hactor _ _ => exact Function.update_of_ne (hne hactor) _ _
  | ordersRead hactor _ => exact Function.update_of_ne (hne hactor) _ _
  | ordersLocked hactor _ _ => exact Function.update_of_ne (hne hactor) _ _
  | finished hactor _ =>
    refine Function.update_of_ne (hne ?_) _ _
    rcases hactor with hcall | rfl
    · exact actor_of_call? hcall
    · rfl

/-- A decidable form of the condition for a run of the calls below `n`. -/
def uncontestedBelow (n : Nat) (s : State) (a : Action) : Bool :=
  a.actor.all (· < n) && rivalsLocked s a &&
    ((a.settles s).isNone || (List.range n).all fun c => (s.calls c).all fun call => call.buying.isNone)

theorem reach_of_below {n : Nat} {s : State} {as : List Action}
    (h : exec (guarded (step shop) (uncontestedBelow n)) emptyState as = some s) :
    Reach init (step shop) Uncontested s := by
  have hboth : Reach init (step shop) Uncontested s ∧ ∀ c, n ≤ c → s.calls c = none := by
    have hr := reach_of_guarded_exec (rfl : init emptyState) h
    refine Reach.invariant (I := fun s => Reach init (step shop) Uncontested s ∧
      ∀ c, n ≤ c → s.calls c = none) ?_ ?_ hr
    · rintro s rfl
      exact ⟨.start rfl, fun _ _ => rfl⟩
    · rintro s a s' ⟨hr, hcalls⟩ hok hstep
      simp only [uncontestedBelow, Bool.and_eq_true, Bool.or_eq_true, Option.isNone_iff_eq_none,
        Option.all_eq_true, decide_eq_true_eq, List.all_eq_true, List.mem_range] at hok
      obtain ⟨⟨hactor, hlocked⟩, hquiet⟩ := hok
      refine ⟨hr.next ⟨hlocked, fun t ht c call x hcall hx => ?_⟩ hstep, fun c hc => ?_⟩
      · rcases hquiet with hnone | hquiet
        · rw [hnone] at ht
          cases ht
        · by_cases hc : c < n
          · rw [hquiet c hc call hcall] at hx
            cases hx
          · rw [hcalls c (Nat.le_of_not_lt hc)] at hcall
            cases hcall
      · rw [calls_of_step hstep fun heq => ?_]
        · exact hcalls c hc
        · have hlt := hactor c heq
          omega
  exact hboth.1

/-- Two checkouts of one listing that do not see each other. -/
def concurrentPurchases : List Action :=
  (purchase 1 8 poster "fs1" 21 31 11).take 6 ++ purchase 2 8 poster "fs2" 22 32 12 ++
    (purchase 1 8 poster "fs1" 21 31 11).drop 6

end FractalStudio.Commerce
