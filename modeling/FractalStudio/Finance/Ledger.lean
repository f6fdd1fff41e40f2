import FractalStudio.Lib.Txn
import FractalStudio.Platform.Schema
import Mathlib.Algebra.Ring.Int.Defs

/-!
# The sale journal and the creator balances

`PostgresSaleLedgerWriter` and the repository functions it calls. Each is a part of
the caller's transaction: it returns the books after its writes, or the failure that
rolls the transaction back.
-/
namespace FractalStudio.Finance

open Platform Txn

/-! ## `finance/repository.py` -/

/-- The `CHECK` constraints of `ledger_entries`. -/
def newEntry (creatorId orderItemId payoutRequestId : Option Uuid) (account : LedgerAccount)
    (signedAmount : Int) (entryType : EntryType) : Txn Failure LedgerEntry :=
  if nonzero : signedAmount ≠ 0 then
    if oneSource : orderItemId.isSome ≠ payoutRequestId.isSome then
      if accountCreator : account = .platformRevenue ∧ creatorId = none ∨
          account ≠ .platformRevenue ∧ creatorId ≠ none then
        .ok ⟨creatorId, orderItemId, payoutRequestId, account, signedAmount, entryType, nonzero,
          oneSource, accountCreator⟩
      else .error (.integrity "ck_ledger_entries_account_creator")
    else .error (.integrity "ck_ledger_entries_one_source")
  else .error (.integrity "ck_ledger_entries_nonzero")

def existingOrderEntryTypes (b : Books) (orderItemId : Uuid) : List EntryType :=
  (b.ledger.filter fun e => e.orderItemId = some orderItemId).map LedgerEntry.entryType

def appendOrderEntry (b : Books) (creatorId : Option Uuid) (orderItemId : Uuid)
    (account : LedgerAccount) (signedAmount : Int) (entryType : EntryType) :
    Txn Failure Books := do
  let entry ← newEntry creatorId (some orderItemId) none account signedAmount entryType
  require (entryType ∉ existingOrderEntryTypes b orderItemId)
    (.integrity "uq_ledger_order_item_type")
  return { b with ledger := b.ledger ++ [entry] }

def zeroBalance : CreatorBalance := ⟨0, 0, le_refl 0, le_refl 0⟩

def lockCreatorBalance (b : Books) (creatorId : Uuid) : Books :=
  { b with balances := b.balances.insertIfAbsent creatorId zeroBalance }

def setBalance (b : Books) (creatorId : Uuid) (balance : CreatorBalance) : Books :=
  { b with balances := b.balances.modify creatorId fun _ => balance }

/-- `apply_available_delta` with `require_nonnegative`: `none` when no row matches. -/
def applyAvailableDelta (b : Books) (creatorId : Uuid) (delta : Int) : Option Books :=
  (b.balances.find? creatorId).bind fun balance =>
    if h : 0 ≤ balance.availableAmount + delta then
      some (setBalance b creatorId
        ⟨balance.availableAmount + delta, balance.reservedAmount, h, balance.reservedNonneg⟩)
    else none

/-! ## `finance/sale_ledger_writer.py` -/

def saleTypes : List EntryType := [.creatorCredit, .platformFee]

def reversalTypes : List EntryType := [.creatorReversal, .platformReversal]

def lockedValidItem (items : Table Uuid OrderItem) (orderItemId : Uuid) :
    Txn Failure OrderItem := do
  let item ← orFail (items.find? orderItemId) (.ledgerInvariant "order_item_not_found")
  require (1 ≤ item.priceAmount && 0 ≤ item.creatorAmount && 0 ≤ item.platformFeeAmount &&
    item.creatorAmount + item.platformFeeAmount = item.priceAmount)
    (.ledgerInvariant "invalid_frozen_order_split")
  return item

def recordSale (items : Table Uuid OrderItem) (b : Books) (orderItemId : Uuid) :
    Txn Failure Books := do
  let item ← lockedValidItem items orderItemId
  let existing := existingOrderEntryTypes b orderItemId
  if saleTypes.all (· ∈ existing) then
    return b
  require (!saleTypes.any (· ∈ existing)) (.ledgerInvariant "partial_sale_journal")
  require (!reversalTypes.any (· ∈ existing)) (.ledgerInvariant "reversal_without_sale")
  let b := lockCreatorBalance b item.creatorId
  let b ← appendOrderEntry b (some item.creatorId) orderItemId .creatorAvailable
    item.creatorAmount .creatorCredit
  let b ← appendOrderEntry b none orderItemId .platformRevenue item.platformFeeAmount .platformFee
  orFail (applyAvailableDelta b item.creatorId item.creatorAmount)
    (.invariant "assert projection is not None")

def reverseSale (items : Table Uuid OrderItem) (b : Books) (orderItemId : Uuid) :
    Txn Failure Books := do
  let item ← lockedValidItem items orderItemId
  let existing := existingOrderEntryTypes b orderItemId
  if reversalTypes.all (· ∈ existing) then
    return b
  require (!reversalTypes.any (· ∈ existing)) (.ledgerInvariant "partial_reversal_journal")
  require (saleTypes.all (· ∈ existing)) (.ledgerInvariant "sale_journal_missing")
  let b := lockCreatorBalance b item.creatorId
  let b ← orFail (applyAvailableDelta b item.creatorId (-item.creatorAmount))
    .insufficientCreatorBalance
  let b ← appendOrderEntry b (some item.creatorId) orderItemId .creatorAvailable
    (-item.creatorAmount) .creatorReversal
  appendOrderEntry b none orderItemId .platformRevenue (-item.platformFeeAmount) .platformReversal

/-! ## What the books say about a creator -/

def available (b : Books) (creator : Uuid) : Int :=
  (b.balances.find? creator).elim 0 CreatorBalance.availableAmount

def reserved (b : Books) (creator : Uuid) : Int :=
  (b.balances.find? creator).elim 0 CreatorBalance.reservedAmount

theorem available_nonneg (b : Books) (creator : Uuid) : 0 ≤ available b creator := by
  unfold available
  cases b.balances.find? creator with
  | none => exact le_refl 0
  | some balance => exact balance.availableNonneg

theorem reserved_nonneg (b : Books) (creator : Uuid) : 0 ≤ reserved b creator := by
  unfold reserved
  cases b.balances.find? creator with
  | none => exact le_refl 0
  | some balance => exact balance.reservedNonneg

@[simp] theorem available_lockCreatorBalance (b : Books) (k c : Uuid) :
    available (lockCreatorBalance b k) c = available b c := by
  simp only [available, lockCreatorBalance, Table.find?_insertIfAbsent]
  by_cases h : c = k
  · subst h
    cases b.balances.find? c <;> simp [zeroBalance]
  · simp [h]

@[simp] theorem reserved_lockCreatorBalance (b : Books) (k c : Uuid) :
    reserved (lockCreatorBalance b k) c = reserved b c := by
  simp only [reserved, lockCreatorBalance, Table.find?_insertIfAbsent]
  by_cases h : c = k
  · subst h
    cases b.balances.find? c <;> simp [zeroBalance]
  · simp [h]

theorem balance_of_lock (b : Books) (k : Uuid) :
    ∃ balance, (lockCreatorBalance b k).balances.find? k = some balance ∧
      balance.availableAmount = available b k ∧ balance.reservedAmount = reserved b k := by
  refine ⟨_, by rw [lockCreatorBalance, Table.find?_insertIfAbsent, if_pos rfl], ?_, ?_⟩
  · unfold available
    cases b.balances.find? k <;> rfl
  · unfold reserved
    cases b.balances.find? k <;> rfl

variable {b : Books} {k : Uuid} {old : CreatorBalance}

theorem available_setBalance (hk : b.balances.find? k = some old) (balance : CreatorBalance)
    (c : Uuid) :
    available (setBalance b k balance) c =
      if c = k then balance.availableAmount else available b c := by
  simp only [available, setBalance, Table.find?_modify]
  by_cases h : c = k
  · subst h
    simp [hk]
  · simp [h]

theorem reserved_setBalance (hk : b.balances.find? k = some old) (balance : CreatorBalance)
    (c : Uuid) :
    reserved (setBalance b k balance) c =
      if c = k then balance.reservedAmount else reserved b c := by
  simp only [reserved, setBalance, Table.find?_modify]
  by_cases h : c = k
  · subst h
    simp [hk]
  · simp [h]

/-! ## What a posting does -/

/-- The columns of an entry, without the constraints it carries. -/
def row (e : LedgerEntry) :
    Option Uuid × Option Uuid × Option Uuid × LedgerAccount × Int × EntryType :=
  (e.creatorId, e.orderItemId, e.payoutRequestId, e.account, e.signedAmount, e.entryType)

/-- The books after entries were appended and one creator's balance moved. -/
structure Posted (b b' : Books) (entries : List LedgerEntry) (creator : Uuid)
    (availableDelta reservedDelta : Int) : Prop where
  ledger : b'.ledger = b.ledger ++ entries
  available : ∀ c, available b' c = available b c + if c = creator then availableDelta else 0
  reserved : ∀ c, reserved b' c = reserved b c + if c = creator then reservedDelta else 0

theorem Posted.trans {b₁ b₂ : Books} {es es' : List LedgerEntry} {a a' r r' : Int}
    (h : Posted b b₁ es k a r) (h' : Posted b₁ b₂ es' k a' r') :
    Posted b b₂ (es ++ es') k (a + a') (r + r') := by
  refine ⟨?_, fun c => ?_, fun c => ?_⟩
  · rw [h'.ledger, h.ledger, List.append_assoc]
  · rw [h'.available, h.available]
    split <;> omega
  · rw [h'.reserved, h.reserved]
    split <;> omega

theorem posted_lockCreatorBalance (b : Books) (k : Uuid) :
    Posted b (lockCreatorBalance b k) [] k 0 0 :=
  ⟨(List.append_nil _).symm, fun c => by simp, fun c => by simp⟩

theorem posted_entry (b : Books) (e : LedgerEntry) (k : Uuid) :
    Posted b { b with ledger := b.ledger ++ [e] } [e] k 0 0 :=
  ⟨rfl, fun c => by simp [Finance.available], fun c => by simp [Finance.reserved]⟩

theorem posted_payouts (b : Books) (payouts : Table Uuid PayoutRequest) (k : Uuid) :
    Posted b { b with payouts } [] k 0 0 :=
  ⟨(List.append_nil _).symm, fun c => by simp [Finance.available],
    fun c => by simp [Finance.reserved]⟩

theorem posted_setBalance (hk : b.balances.find? k = some old) (balance : CreatorBalance) :
    Posted b (setBalance b k balance) [] k (balance.availableAmount - old.availableAmount)
      (balance.reservedAmount - old.reservedAmount) := by
  refine ⟨(List.append_nil _).symm, fun c => ?_, fun c => ?_⟩
  · rw [available_setBalance hk]
    by_cases hc : c = k
    · subst hc
      simp [Finance.available, hk]
    · simp [hc]
  · rw [reserved_setBalance hk]
    by_cases hc : c = k
    · subst hc
      simp [Finance.reserved, hk]
    · simp [hc]

theorem newEntry_commits {creatorId orderItemId payoutRequestId : Option Uuid}
    {account : LedgerAccount} {signedAmount : Int} {entryType : EntryType} {e : LedgerEntry}
    (h : newEntry creatorId orderItemId payoutRequestId account signedAmount entryType = .ok e) :
    signedAmount ≠ 0 ∧
      row e = (creatorId, orderItemId, payoutRequestId, account, signedAmount, entryType) := by
  unfold newEntry at h
  split at h
  · next hnonzero =>
    split at h
    · split at h
      · obtain rfl := Except.ok.inj h
        exact ⟨hnonzero, rfl⟩
      · cases h
    · cases h
  · cases h

theorem appendOrderEntry_commits {b' : Books} {creatorId : Option Uuid} {orderItemId : Uuid}
    {account : LedgerAccount} {signedAmount : Int} {entryType : EntryType}
    (h : appendOrderEntry b creatorId orderItemId account signedAmount entryType = .ok b') :
    ∃ e, row e = (creatorId, some orderItemId, none, account, signedAmount, entryType) ∧
      signedAmount ≠ 0 ∧ b' = { b with ledger := b.ledger ++ [e] } := by
  obtain ⟨e, he, h⟩ := bind_commits.mp h
  obtain ⟨-, -, h⟩ := bind_commits.mp h
  obtain ⟨hnonzero, hrow⟩ := newEntry_commits he
  exact ⟨e, hrow, hnonzero, (Except.ok.inj h).symm⟩

theorem applyAvailableDelta_commits {b' : Books} {delta : Int}
    (h : applyAvailableDelta b k delta = some b') :
    Posted b b' [] k delta 0 ∧ b'.payouts = b.payouts := by
  obtain ⟨old, hold, h⟩ := Option.bind_eq_some_iff.mp h
  split at h
  · obtain rfl := Option.some.inj h
    have hposted := posted_setBalance hold
      ⟨old.availableAmount + delta, old.reservedAmount, by assumption, old.reservedNonneg⟩
    rw [add_sub_cancel_left, sub_self] at hposted
    exact ⟨hposted, rfl⟩
  · cases h

variable {items : Table Uuid OrderItem} {id : Uuid}

theorem lockedValidItem_commits {item : OrderItem} :
    lockedValidItem items id = .ok item ↔ items.find? id = some item := by
  unfold lockedValidItem
  constructor
  · intro h
    obtain ⟨row, hrow, h⟩ := bind_commits.mp h
    obtain ⟨-, -, h⟩ := bind_commits.mp h
    obtain rfl := Except.ok.inj h
    exact orFail_eq_ok.mp hrow
  · intro h
    have hvalid : (1 ≤ item.priceAmount && 0 ≤ item.creatorAmount && 0 ≤ item.platformFeeAmount &&
        item.creatorAmount + item.platformFeeAmount = item.priceAmount) = true := by
      simp [item.minimum, item.creatorNonneg, item.feeNonneg, item.split]
    exact bind_commits.mpr ⟨item, orFail_eq_ok.mpr h,
      bind_commits.mpr ⟨(), require_eq_ok.mpr hvalid, rfl⟩⟩

theorem appendOrderEntry_of_new (b : Books) (creatorId : Option Uuid) (id : Uuid)
    (account : LedgerAccount) (signedAmount : Int) (entryType : EntryType)
    (hnonzero : signedAmount ≠ 0)
    (haccount : account = .platformRevenue ∧ creatorId = none ∨
      account ≠ .platformRevenue ∧ creatorId ≠ none)
    (hnew : entryType ∉ existingOrderEntryTypes b id) :
    ∃ e, appendOrderEntry b creatorId id account signedAmount entryType =
        .ok { b with ledger := b.ledger ++ [e] } ∧
      existingOrderEntryTypes { b with ledger := b.ledger ++ [e] } id =
        existingOrderEntryTypes b id ++ [entryType] := by
  refine ⟨⟨creatorId, some id, none, account, signedAmount, entryType, hnonzero, by simp, haccount⟩,
    ?_, ?_⟩
  · refine bind_commits.mpr ⟨_, ?_, bind_commits.mpr ⟨(), ?_, rfl⟩⟩
    · unfold newEntry
      rw [dif_pos hnonzero, dif_pos (by simp), dif_pos haccount]
    · rw [require_eq_ok, decide_eq_true_eq]
      exact hnew
  · simp [existingOrderEntryTypes, List.filter_append]

theorem applyAvailableDelta_of_credit {balance : CreatorBalance} {delta : Int}
    (hbalance : b.balances.find? k = some balance) (hdelta : 0 ≤ delta) :
    ∃ b', applyAvailableDelta b k delta = some b' := by
  have hnonneg : 0 ≤ balance.availableAmount + delta := by
    have h := balance.availableNonneg
    omega
  exact ⟨_, Option.bind_eq_some_iff.mpr ⟨balance, hbalance, dif_pos hnonneg⟩⟩

/-- The two entries of a sale. -/
def saleRows (id : Uuid) (item : OrderItem) :
    List (Option Uuid × Option Uuid × Option Uuid × LedgerAccount × Int × EntryType) :=
  [(some item.creatorId, some id, none, .creatorAvailable, item.creatorAmount, .creatorCredit),
    (none, some id, none, .platformRevenue, item.platformFeeAmount, .platformFee)]

/-- The two entries of a reversal. -/
def reversalRows (id : Uuid) (item : OrderItem) :
    List (Option Uuid × Option Uuid × Option Uuid × LedgerAccount × Int × EntryType) :=
  [(some item.creatorId, some id, none, .creatorAvailable, -item.creatorAmount, .creatorReversal),
    (none, some id, none, .platformRevenue, -item.platformFeeAmount, .platformReversal)]

/-- A sale is entered whole, or it was. -/
theorem recordSale_commits {b' : Books} (h : recordSale items b id = .ok b') :
    ∃ item, items.find? id = some item ∧
      ((b' = b ∧ ∀ t ∈ saleTypes, t ∈ existingOrderEntryTypes b id) ∨
        ((∀ t ∈ saleTypes ++ reversalTypes, t ∉ existingOrderEntryTypes b id) ∧
          item.creatorAmount ≠ 0 ∧ item.platformFeeAmount ≠ 0 ∧ b'.payouts = b.payouts ∧
          ∃ entries, entries.map row = saleRows id item ∧
            Posted b b' entries item.creatorId item.creatorAmount 0)) := by
  obtain ⟨item, hitem, h⟩ := bind_commits.mp h
  refine ⟨item, lockedValidItem_commits.mp hitem, ?_⟩
  dsimp only at h
  split at h
  · next hall =>
    exact .inl ⟨(Except.ok.inj h).symm, by simpa using hall⟩
  · obtain ⟨_, hsale, h⟩ := bind_commits.mp h
    obtain ⟨_, hreversal, h⟩ := bind_commits.mp h
    obtain ⟨b₁, h₁, h⟩ := bind_commits.mp h
    obtain ⟨b₂, h₂, h⟩ := bind_commits.mp h
    obtain ⟨credit, hcredit, hcreator, rfl⟩ := appendOrderEntry_commits h₁
    obtain ⟨fee, hfee, hplatform, rfl⟩ := appendOrderEntry_commits h₂
    obtain ⟨hposted, hpayouts⟩ := applyAvailableDelta_commits (orFail_eq_ok.mp h)
    rw [require_eq_ok, Bool.not_eq_true', List.any_eq_false] at hsale hreversal
    refine .inr ⟨fun t ht => ?_, hcreator, hplatform, hpayouts, [credit, fee], ?_, ?_⟩
    · rcases List.mem_append.mp ht with ht | ht
      · simpa using hsale t ht
      · simpa using hreversal t ht
    · simp only [List.map_cons, List.map_nil, hcredit, hfee, saleRows]
    · have hall := (posted_lockCreatorBalance b item.creatorId).trans
        ((posted_entry _ credit _).trans ((posted_entry _ fee _).trans hposted))
      simpa using hall

theorem recordSale_of_fresh {item : OrderItem} (hitem : items.find? id = some item)
    (hfresh : existingOrderEntryTypes b id = []) (hcreator : item.creatorAmount ≠ 0)
    (hfee : item.platformFeeAmount ≠ 0) : ∃ b', recordSale items b id = .ok b' := by
  have hlocked : existingOrderEntryTypes (lockCreatorBalance b item.creatorId) id = [] := hfresh
  obtain ⟨credit, hcredit, htypes⟩ :=
    appendOrderEntry_of_new (lockCreatorBalance b item.creatorId) (some item.creatorId) id
      .creatorAvailable item.creatorAmount .creatorCredit hcreator (.inr ⟨by simp, by simp⟩)
      (by rw [hlocked]; exact List.not_mem_nil)
  rw [hlocked] at htypes
  obtain ⟨fee, hfeeOk, -⟩ :=
    appendOrderEntry_of_new _ none id .platformRevenue item.platformFeeAmount .platformFee hfee
      (.inl ⟨rfl, rfl⟩) (by rw [htypes]; simp)
  obtain ⟨balance, hbalance, -⟩ := balance_of_lock b item.creatorId
  obtain ⟨b', hb'⟩ : ∃ b', applyAvailableDelta
      { lockCreatorBalance b item.creatorId with
        ledger := (lockCreatorBalance b item.creatorId).ledger ++ [credit] ++ [fee] }
      item.creatorId item.creatorAmount = some b' :=
    applyAvailableDelta_of_credit hbalance item.creatorNonneg
  refine ⟨b', bind_commits.mpr ⟨item, lockedValidItem_commits.mpr hitem, ?_⟩⟩
  dsimp only
  rw [hfresh, if_neg (by simp [saleTypes])]
  refine bind_commits.mpr ⟨(), by simp, bind_commits.mpr ⟨(), by simp, ?_⟩⟩
  refine bind_commits.mpr ⟨_, hcredit, bind_commits.mpr ⟨_, hfeeOk, ?_⟩⟩
  rw [orFail_eq_ok]
  exact hb'

theorem reverseSale_commits {b' : Books} (h : reverseSale items b id = .ok b') :
    ∃ item, items.find? id = some item ∧
      ((b' = b ∧ ∀ t ∈ reversalTypes, t ∈ existingOrderEntryTypes b id) ∨
        ((∀ t ∈ reversalTypes, t ∉ existingOrderEntryTypes b id) ∧
          (∀ t ∈ saleTypes, t ∈ existingOrderEntryTypes b id) ∧ b'.payouts = b.payouts ∧
          ∃ entries, entries.map row = reversalRows id item ∧
            Posted b b' entries item.creatorId (-item.creatorAmount) 0)) := by
  obtain ⟨item, hitem, h⟩ := bind_commits.mp h
  refine ⟨item, lockedValidItem_commits.mp hitem, ?_⟩
  dsimp only at h
  split at h
  · next hall =>
    exact .inl ⟨(Except.ok.inj h).symm, by simpa using hall⟩
  · obtain ⟨_, hreversal, h⟩ := bind_commits.mp h
    obtain ⟨_, hsale, h⟩ := bind_commits.mp h
    obtain ⟨b₁, h₁, h⟩ := bind_commits.mp h
    obtain ⟨b₂, h₂, h⟩ := bind_commits.mp h
    obtain ⟨hposted, hpayouts⟩ := applyAvailableDelta_commits (orFail_eq_ok.mp h₁)
    obtain ⟨debit, hdebit, -, rfl⟩ := appendOrderEntry_commits h₂
    obtain ⟨fee, hfee, -, rfl⟩ := appendOrderEntry_commits h
    rw [require_eq_ok, Bool.not_eq_true', List.any_eq_false] at hreversal
    rw [require_eq_ok, List.all_eq_true] at hsale
    refine .inr ⟨fun t ht => by simpa using hreversal t ht, fun t ht => by simpa using hsale t ht,
      hpayouts, [debit, fee], ?_, ?_⟩
    · simp only [List.map_cons, List.map_nil, hdebit, hfee, reversalRows]
    · have hall := (posted_lockCreatorBalance b item.creatorId).trans
        (hposted.trans ((posted_entry _ debit _).trans (posted_entry _ fee _)))
      simpa using hall

end FractalStudio.Finance
