import FractalStudio.Commerce.Sound
import FractalStudio.Finance.ItemJournal

/-!
# Settled once, journaled once

Notifications, reconciliations and refunds may repeat and overtake each other. An
item's journal still moves from nothing to its sale to its reversal, its entitlement
is granted by one row, and a revoked entitlement stays revoked.
-/
namespace FractalStudio.Commerce

open Platform Finance Txn Transition

/-! ## The entitlement rows -/

def GrantedOnce (entitlements : List Entitlement) : Prop :=
  (entitlements.map Entitlement.orderItemId).Nodup

variable {entitlements : List Entitlement} {buyerId : Uuid}

theorem mem_grantEntitlement {item : Uuid × OrderItem} {e : Entitlement} :
    e ∈ grantEntitlement buyerId entitlements item ↔ e ∈ entitlements ∨
      e = ⟨buyerId, item.2.assetId, item.1, .active⟩ ∧
        ∀ e' ∈ entitlements, e'.orderItemId ≠ item.1 := by
  unfold grantEntitlement
  split
  · next hany =>
    obtain ⟨e', he', hitem⟩ := List.any_eq_true.mp hany
    constructor
    · intro h
      exact .inl h
    · rintro (h | ⟨-, hnone⟩)
      · exact h
      · exact absurd (of_decide_eq_true hitem) (hnone e' he')
  · next hany =>
    have hnone : ∀ e' ∈ entitlements, e'.orderItemId ≠ item.1 := by
      intro e' he' heq
      exact hany (List.any_eq_true.mpr ⟨e', he', by simpa using heq⟩)
    rw [List.mem_append, List.mem_singleton]
    exact ⟨fun h => h.imp_right fun heq => ⟨heq, hnone⟩, fun h => h.imp_right And.left⟩

theorem grantedOnce_grantEntitlement (item : Uuid × OrderItem) (h : GrantedOnce entitlements) :
    GrantedOnce (grantEntitlement buyerId entitlements item) := by
  unfold grantEntitlement
  split
  · exact h
  · next hany =>
    unfold GrantedOnce
    rw [List.map_append]
    apply h.append (List.nodup_singleton _)
    rw [List.disjoint_singleton]
    intro hmem
    obtain ⟨e, he, heq⟩ := List.mem_map.mp hmem
    exact hany (List.any_eq_true.mpr ⟨e, he, by simpa using heq⟩)

variable {pays reverses : Prop} {t : LockedPaymentAttempt} {db' : Db}

theorem handled_entitlements {db : Db} (h : Handled pays reverses t db db') :
    db'.entitlements = db.entitlements ∨
    (pays ∧ unpaid t = true) ∧ db'.entitlements = t.items.foldl (grantEntitlement t.buyerId) db.entitlements ∨
    ∃ ids, db'.entitlements = (revokeEntitlements db ids).entitlements := by
  cases h with
  | nothing => exact .inl rfl
  | settled hpays hunpaid _ =>
    right
    left
    refine ⟨⟨hpays, hunpaid⟩, ?_⟩
    unfold paid
    dsimp only
    split <;> rfl
  | closed _ => exact .inl rfl
  | reversed _ _ _ _ => exact .inr (.inr ⟨_, rfl⟩)
  | reviewed revoke _ _ =>
    cases revoke with
    | false => exact .inl rfl
    | true => exact .inr (.inr ⟨_, rfl⟩)
  | excepted _ => exact .inl rfl

theorem grantedOnce_of_handled {db : Db} (h : Handled pays reverses t db db')
    (hd : GrantedOnce db.entitlements) :
    GrantedOnce db'.entitlements := by
  rcases handled_entitlements h with heq | ⟨-, heq⟩ | ⟨ids, heq⟩
  · rw [heq]
    exact hd
  · rw [heq]
    exact List.foldlRecOn t.items (grantEntitlement t.buyerId) hd
      fun _ hb item _ => grantedOnce_grantEntitlement item hb
  · rw [heq]
    unfold GrantedOnce revokeEntitlements
    rw [List.map_map]
    have hkeys : (Entitlement.orderItemId ∘ fun e : Entitlement =>
        if ids.contains e.orderItemId then { e with status := .revoked } else e) =
          Entitlement.orderItemId := by
      funext e
      simp only [Function.comp_apply]
      split <;> rfl
    rw [hkeys]
    exact hd

def RevokedFor (entitlements : List Entitlement) (itemId : Uuid) : Prop :=
  (∃ e ∈ entitlements, e.orderItemId = itemId) ∧
  ∀ e ∈ entitlements, e.orderItemId = itemId → e.status = .revoked

theorem revokedFor_grantEntitlement {itemId : Uuid} (item : Uuid × OrderItem)
    (h : RevokedFor entitlements itemId) :
    RevokedFor (grantEntitlement buyerId entitlements item) itemId := by
  obtain ⟨⟨e, he, heq⟩, hall⟩ := h
  constructor
  · exact ⟨e, mem_grantEntitlement.mpr (.inl he), heq⟩
  · intro e' he' heq'
    rcases mem_grantEntitlement.mp he' with hold | ⟨rfl, hnone⟩
    · exact hall e' hold heq'
    · -- the row of the item is there, so the grant did nothing
      exact absurd (heq.trans heq'.symm) (hnone e he)

theorem revokedFor_of_handled {db : Db} {itemId : Uuid} (h : Handled pays reverses t db db')
    (hd : RevokedFor db.entitlements itemId) :
    RevokedFor db'.entitlements itemId := by
  rcases handled_entitlements h with heq | ⟨-, heq⟩ | ⟨ids, heq⟩
  · rw [heq]
    exact hd
  · rw [heq]
    exact List.foldlRecOn (motive := fun es => RevokedFor es itemId) t.items
      (grantEntitlement t.buyerId) hd fun _ hb item _ => revokedFor_grantEntitlement item hb
  · obtain ⟨⟨e, he, hitem⟩, hall⟩ := hd
    rw [heq]
    constructor
    · refine ⟨_, List.mem_map.mpr ⟨e, he, rfl⟩, ?_⟩
      split <;> exact hitem
    · intro e' he' hitem'
      obtain ⟨e₀, he₀, rfl⟩ := List.mem_map.mp he'
      split at hitem'
      · next hids =>
        rw [if_pos hids]
      · next hids =>
        rw [if_neg hids]
        exact hall e₀ he₀ hitem'

theorem handled_books {db : Db} (h : Handled pays reverses t db db') :
    db'.books = db.books ∨ recordSales db.items db.books t.items = .ok db'.books ∨
      reverseSales db.items db.books t.items = .ok db'.books := by
  cases h with
  | nothing => exact .inl rfl
  | settled _ _ hbooks =>
    right
    left
    rw [hbooks]
    unfold paid
    dsimp only
    split <;> rfl
  | closed _ => exact .inl rfl
  | reversed _ _ _ hbooks => exact .inr (.inr hbooks)
  | reviewed revoke _ _ => cases revoke <;> exact .inl rfl
  | excepted _ => exact .inl rfl

theorem journaled_of_handled {db : Db} (hd : Journaled db.items db.books)
    (h : Handled pays reverses t db db') :
    Journaled db'.items db'.books := by
  rw [(sameItems_of_handled h).items]
  rcases handled_books h with heq | hrecorded | hreversed
  · rw [heq]
    exact hd
  · exact each_invariant (fun _ _ _ _ hb hstep => journaled_recordSale hb hstep) hd hrecorded
  · exact each_invariant (fun _ _ _ _ hb hstep => journaled_reverseSale hb hstep) hd hreversed

section Step
variable {settings : Settings} {s s' : State} {a : Action} {db : Db}

/-- Every effect books a sale before it reverses it. -/
theorem journaled_of_effect (hd : Journaled s.db.items s.db.books) (h : Effect settings s a db) :
    Journaled db.items db.books := by
  cases h with
  | quiet => exact hd
  | @handled t n _ _ _ hhandled _ =>
    have hbase : Journaled (withNotifications s.db n).items (withNotifications s.db n).books := hd
    exact journaled_of_handled hbase hhandled
  | placed _ _ hplaced =>
    have hp := placeOrder_commits hplaced
    obtain ⟨i, -, -, -, hitems⟩ := hp.item
    rw [hp.frame.2.2.2.1]
    exact Journaled.mono hd fun id item hitem => Table.find?_of_insert hitems hitem
  | joined _ _ hjoined =>
    have hj := (createMembershipOrder_commits hjoined).frame
    rw [hj.1, hj.2.2.2.2.1]
    exact hd
  | granted _ => exact hd
  | paidOut _ hbooks => exact journaled_payout hd hbooks

/-- Entitlements change only when a trade is handled. -/
theorem entitlements_of_effect {P : List Entitlement → Prop} (hp : P s.db.entitlements)
    (hhandled : ∀ {t n db'}, Locked s.db t →
      Handled (a.settles s = some t) (a.reverses s = some t) t (withNotifications s.db n) db' →
      P (Db.entitlements db')) (h : Effect settings s a db) : P db.entitlements := by
  cases h with
  | quiet => exact hp
  | handled hl _ hdone _ => exact hhandled hl hdone
  | placed _ _ hplaced =>
    rw [(placeOrder_commits hplaced).frame.2.2.1]
    exact hp
  | joined _ _ hjoined =>
    rw [(createMembershipOrder_commits hjoined).frame.2.2.2.1]
    exact hp
  | granted _ => exact hp
  | paidOut _ _ => exact hp

theorem journaled_reachable (hr : Reach init (step settings) Free s) :
    Journaled s.db.items s.db.books := by
  apply hr.invariant
  · rintro s rfl
    exact journaled_empty _
  · intro s a s' hs _ hstep
    exact journaled_of_effect hs (effect_of_step hstep)

/-- In no run is an item granted twice. -/
theorem grantedOnce_reachable (hr : Reach init (step settings) Free s) :
    GrantedOnce s.db.entitlements := by
  apply hr.invariant
  · rintro s rfl
    exact List.nodup_nil
  · intro s a s' hs _ hstep
    exact entitlements_of_effect hs (fun _ hdone => grantedOnce_of_handled hdone hs)
      (effect_of_step hstep)

theorem revokedFor_later {itemId : Uuid} (hr : Reach init (step settings) Free s)
    (hl : Later (step settings) Free s s') (h : RevokedFor s.db.entitlements itemId) :
    RevokedFor s'.db.entitlements itemId := by
  refine Later.keeps (P := fun s => RevokedFor s.db.entitlements itemId) ?_ hr hl h
  intro s a s' _ hs _ hstep
  exact entitlements_of_effect (P := fun es => RevokedFor es itemId) hs
    (fun _ hdone => revokedFor_of_handled hdone hs) (effect_of_step hstep)

theorem GrantedOnce.eq (h : GrantedOnce entitlements) {e e' : Entitlement} (he : e ∈ entitlements)
    (he' : e' ∈ entitlements) (heq : e.orderItemId = e'.orderItemId) : e = e' :=
  List.inj_on_of_nodup_map h he he' heq

end Step

/-- Each item has at most one pair of each kind, a reversal only after its sale, and at most one
entitlement, which once revoked stays revoked. -/
theorem settled_once {settings : Settings} {s : State}
    (hr : Reach init (step settings) Free s) (id : Uuid) :
    (entryCount s.db.books id .creatorCredit ≤ 1 ∧
      entryCount s.db.books id .platformFee = entryCount s.db.books id .creatorCredit ∧
      entryCount s.db.books id .creatorReversal ≤ entryCount s.db.books id .creatorCredit ∧
      entryCount s.db.books id .platformReversal = entryCount s.db.books id .creatorReversal ∧
      (entryCount s.db.books id .creatorReversal = 1 → itemTotal s.db.books id = 0) ∧
      (entryCount s.db.books id .creatorCredit = 1 → entryCount s.db.books id .creatorReversal = 0 →
        ∃ item, s.db.items.find? id = some item ∧ itemTotal s.db.books id = item.priceAmount)) ∧
    (s.db.entitlements.map Entitlement.orderItemId).count id ≤ 1 ∧
    ∀ s', Later (step settings) Free s s' →
      ∀ e ∈ s.db.entitlements, e.orderItemId = id → e.status = .revoked →
      ∀ e' ∈ s'.db.entitlements, e'.orderItemId = id → e'.status = .revoked := by
  have honce := grantedOnce_reachable hr
  refine ⟨(journaled_reachable hr).pairs id, List.nodup_iff_count_le_one.mp honce id, ?_⟩
  intro s' hl e he hid hrevoked
  have hall : RevokedFor s.db.entitlements id := by
    refine ⟨⟨e, he, hid⟩, fun e' he' hid' => ?_⟩
    rw [honce.eq he' he (hid'.trans hid.symm)]
    exact hrevoked
  exact (revokedFor_later hr hl hall).2

/-- A purchase is notified twice, refunded, and notified again. -/
theorem settled_once_refunded :
    ∃ s, Reach init (step shop) Free s ∧ entryCount s.db.books 31 .creatorReversal = 1 ∧
      itemTotal s.db.books 31 = 0 := by
  have hrun : (exec (step shop) emptyState
      (purchase 1 8 poster "fs1" 21 31 11 ++ [.notify 2 (success "fs1" "1"),
        .notify 2 (success "fs1" "1"), .notify 2 (closure "fs1" "1" none),
        .notify 2 (closure "fs1" "1" (some 1000))])).any
      (fun s => entryCount s.db.books 31 .creatorReversal = 1) = true := by
    decide +kernel
  obtain ⟨s, hexec, hs⟩ := (Option.any_eq_true _ _).mp hrun
  rw [decide_eq_true_eq] at hs
  have hr : Reach init (step shop) Free s := reach_of_exec rfl hexec
  exact ⟨s, hr, hs, (settled_once hr 31).1.2.2.2.2.1 hs⟩

end FractalStudio.Commerce
