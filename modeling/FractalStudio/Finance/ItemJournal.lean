import FractalStudio.Finance.Payout

/-!
# The journal of one order item

An item has no entries, the pair of its sale, or the pair of its sale followed by the
pair of its reversal. The entry types the writer reads before it appends tell these
three apart, so each transaction moves along them once.
-/
namespace FractalStudio.Finance

open Platform Txn

def itemEntries (b : Books) (id : Uuid) : List LedgerEntry :=
  b.ledger.filter fun e => e.orderItemId = some id

/-- The three journals an item can have. -/
def ItemJournal (items : Table Uuid OrderItem) (id : Uuid)
    (rows : List (Option Uuid × Option Uuid × Option Uuid × LedgerAccount × Int × EntryType)) :
    Prop :=
  rows = [] ∨ ∃ item, items.find? id = some item ∧
    (rows = saleRows id item ∨ rows = saleRows id item ++ reversalRows id item)

def Journaled (items : Table Uuid OrderItem) (b : Books) : Prop :=
  ∀ id, ItemJournal items id ((itemEntries b id).map row)

theorem journaled_empty (items : Table Uuid OrderItem) : Journaled items .empty :=
  fun _ => .inl rfl

theorem existingOrderEntryTypes_eq (b : Books) (id : Uuid) :
    existingOrderEntryTypes b id = ((itemEntries b id).map row).map fun r => r.2.2.2.2.2 := by
  rw [List.map_map]
  rfl

variable {b : Books} {items : Table Uuid OrderItem}

theorem Journaled.mono {items' : Table Uuid OrderItem} (h : Journaled items b)
    (hitems : ∀ id item, items.find? id = some item → items'.find? id = some item) :
    Journaled items' b := by
  intro id
  rcases h id with hnone | ⟨item, hitem, hrows⟩
  · exact .inl hnone
  · exact .inr ⟨item, hitems id item hitem, hrows⟩

theorem itemEntries_append {b' : Books} {entries : List LedgerEntry}
    (h : b'.ledger = b.ledger ++ entries) (id : Uuid) :
    itemEntries b' id = itemEntries b id ++ entries.filter fun e => e.orderItemId = some id := by
  rw [itemEntries, itemEntries, h, List.filter_append]

theorem itemEntries_of_rows {b' : Books} {entries : List LedgerEntry} {owner : Option Uuid}
    (hledger : b'.ledger = b.ledger ++ entries) (howner : ∀ r ∈ entries.map row, r.2.1 = owner)
    (id : Uuid) :
    (itemEntries b' id).map row =
      (itemEntries b id).map row ++ if owner = some id then entries.map row else [] := by
  rw [itemEntries_append hledger, List.map_append]
  congr 1
  have hall : ∀ e ∈ entries, e.orderItemId = owner := fun e he =>
    howner (row e) (List.mem_map.mpr ⟨e, he, rfl⟩)
  split
  · next heq =>
    rw [List.filter_eq_self.mpr]
    intro e he
    rw [hall e he, heq]
    simp
  · next hne =>
    rw [List.filter_eq_nil_iff.mpr]
    · rfl
    · intro e he
      rw [hall e he]
      simpa using hne

variable {id : Uuid} {item : OrderItem}

theorem owner_saleRows :
    ∀ r ∈ saleRows id item, r.2.1 = some id := by
  intro r hr
  simp only [saleRows, List.mem_cons, List.not_mem_nil, or_false] at hr
  rcases hr with rfl | rfl <;> rfl

theorem owner_reversalRows :
    ∀ r ∈ reversalRows id item, r.2.1 = some id := by
  intro r hr
  simp only [reversalRows, List.mem_cons, List.not_mem_nil, or_false] at hr
  rcases hr with rfl | rfl <;> rfl

theorem journaled_recordSale {b' : Books} (hb : Journaled items b)
    (h : recordSale items b id = .ok b') : Journaled items b' := by
  obtain ⟨item, hitem, ⟨rfl, -⟩ | ⟨hnone, -, -, -, entries, hrows, hposted⟩⟩ := recordSale_commits h
  · exact hb
  · intro id'
    rw [itemEntries_of_rows hposted.ledger (by rw [hrows]; exact owner_saleRows)]
    by_cases hid : id = id'
    · subst hid
      -- an item that has entries has the credit of its sale
      have hempty : (itemEntries b id).map row = [] := by
        have hcredit := hnone .creatorCredit (by simp [saleTypes])
        rw [existingOrderEntryTypes_eq] at hcredit
        rcases hb id with hempty | ⟨item, -, hsold | hreversed⟩
        · exact hempty
        · simp [hsold, saleRows] at hcredit
        · simp [hreversed, saleRows] at hcredit
      rw [hempty, if_pos rfl, hrows]
      exact .inr ⟨item, hitem, .inl rfl⟩
    · rw [if_neg fun heq => hid (Option.some.inj heq), List.append_nil]
      exact hb id'

theorem journaled_reverseSale {b' : Books} (hb : Journaled items b)
    (h : reverseSale items b id = .ok b') : Journaled items b' := by
  obtain ⟨item, hitem, ⟨rfl, -⟩ | ⟨hnone, hsold, -, entries, hrows, hposted⟩⟩ :=
    reverseSale_commits h
  · exact hb
  · intro id'
    rw [itemEntries_of_rows hposted.ledger (by rw [hrows]; exact owner_reversalRows)]
    by_cases hid : id = id'
    · subst hid
      have hsale : (itemEntries b id).map row = saleRows id item := by
        have hcredit := hsold .creatorCredit (by simp [saleTypes])
        have hreversal := hnone .creatorReversal (by simp [reversalTypes])
        rw [existingOrderEntryTypes_eq] at hcredit hreversal
        rcases hb id with hempty | ⟨found, hfound, hsale | hreversed⟩
        · simp [hempty] at hcredit
        · rw [hitem] at hfound
          rw [hsale, Option.some.inj hfound]
        · simp [hreversed, saleRows, reversalRows] at hreversal
      rw [hsale, if_pos rfl, hrows]
      exact .inr ⟨item, hitem, .inr rfl⟩
    · rw [if_neg fun heq => hid (Option.some.inj heq), List.append_nil]
      exact hb id'

theorem journaled_of_payoutEntry {b' : Books} {e : LedgerEntry} {k : Uuid} {a r : Int}
    (hb : Journaled items b) (hrow : (row e).2.1 = none) (h : Posted b b' [e] k a r) :
    Journaled items b' := by
  intro id
  have howner : ∀ r ∈ [e].map row, r.2.1 = none := by simpa using hrow
  rw [itemEntries_of_rows h.ledger howner, if_neg (by simp), List.append_nil]
  exact hb id

theorem journaled_payout {b' : Books} {call : PayoutCall} (hb : Journaled items b)
    (h : payout b call = .ok b') : Journaled items b' := by
  have hended : ∀ {id : Uuid} {r : PayoutRequest} {ending : Ending}, Ended b b' id r ending →
      Journaled items b' := by
    intro id r ending hend
    obtain ⟨e, hrow, hposted⟩ := hend.posted
    exact journaled_of_payoutEntry hb (by rw [hrow]) hposted
  cases call with
  | createRequest creator amount id =>
    obtain ⟨_, e, hrow, -, hposted⟩ := createRequest_commits h
    exact journaled_of_payoutEntry hb (by rw [hrow]) hposted
  | cancelRequest principal id =>
    obtain ⟨r, hr⟩ := cancelRequest_commits h
    exact hended hr
  | markPaid operator id reference =>
    obtain ⟨r, hr⟩ := markPaid_commits h
    exact hended hr
  | reject operator id reason =>
    obtain ⟨r, hr⟩ := reject_commits h
    exact hended hr

/-- The journal has entries of the item. -/
def Sold (b : Books) (id : Uuid) : Prop := ∃ e ∈ b.ledger, e.orderItemId = some id

theorem Sold.mono {b' : Books} (h : Sold b id) (hledger : b.ledger <+: b'.ledger) :
    Sold b' id := by
  obtain ⟨e, he, hid⟩ := h
  exact ⟨e, hledger.subset he, hid⟩

theorem sold_of_mem_types {t : EntryType} (h : t ∈ existingOrderEntryTypes b id) : Sold b id := by
  obtain ⟨e, he, -⟩ := List.mem_map.mp h
  obtain ⟨hmem, hid⟩ := List.mem_filter.mp he
  exact ⟨e, hmem, of_decide_eq_true hid⟩

/-- A recorded sale only appends, and leaves the item with entries. -/
theorem recordSale_sold {b' : Books} (h : recordSale items b id = .ok b') :
    b.ledger <+: b'.ledger ∧ Sold b' id := by
  obtain ⟨item, -, ⟨rfl, hall⟩ | ⟨-, -, -, -, entries, hrows, hposted⟩⟩ := recordSale_commits h
  · exact ⟨List.prefix_rfl, sold_of_mem_types (hall .creatorCredit (by simp [saleTypes]))⟩
  · have hmem : (some item.creatorId, some id, none, .creatorAvailable, item.creatorAmount,
        .creatorCredit) ∈ entries.map row := by
      rw [hrows]
      exact List.mem_cons_self
    obtain ⟨e, he, hrow⟩ := List.mem_map.mp hmem
    refine ⟨⟨entries, hposted.ledger.symm⟩, e, ?_, congrArg (fun r => r.2.1) hrow⟩
    rw [hposted.ledger]
    exact List.mem_append_right _ he

theorem ledger_reverseSale {b' : Books} (h : reverseSale items b id = .ok b') :
    b.ledger <+: b'.ledger := by
  obtain ⟨item, -, ⟨rfl, -⟩ | ⟨-, -, -, entries, -, hposted⟩⟩ := reverseSale_commits h
  · exact List.prefix_rfl
  · exact ⟨entries, hposted.ledger.symm⟩

theorem ledger_payout {b' : Books} {call : PayoutCall} (h : payout b call = .ok b') :
    b.ledger <+: b'.ledger := by
  have hended : ∀ {id : Uuid} {r : PayoutRequest} {ending : Ending}, Ended b b' id r ending →
      b.ledger <+: b'.ledger := by
    intro id r ending hend
    obtain ⟨e, -, hposted⟩ := hend.posted
    exact ⟨[e], hposted.ledger.symm⟩
  cases call with
  | createRequest creator amount id =>
    obtain ⟨_, e, -, -, hposted⟩ := createRequest_commits h
    exact ⟨[e], hposted.ledger.symm⟩
  | cancelRequest principal id =>
    obtain ⟨r, hr⟩ := cancelRequest_commits h
    exact hended hr
  | markPaid operator id reference =>
    obtain ⟨r, hr⟩ := markPaid_commits h
    exact hended hr
  | reject operator id reason =>
    obtain ⟨r, hr⟩ := reject_commits h
    exact hended hr

/-- With the journal in order, the reversal of a sold item fails for lack of balance only. -/
theorem reverseSale_fails {e : Failure} (hb : Journaled items b)
    (hitem : items.find? id = some item) (hsold : Sold b id)
    (h : reverseSale items b id = .error e) : e = .insufficientCreatorBalance := by
  have hfound {r} (hr : r ∈ (itemEntries b id).map row) : r.2.2.2.2.1 ≠ 0 := by
    obtain ⟨entry, -, rfl⟩ := List.mem_map.mp hr
    exact entry.nonzero
  unfold reverseSale at h
  rw [lockedValidItem_commits.mpr hitem] at h
  obtain ⟨_, ⟨⟩⟩ | ⟨_, hok, h⟩ := bind_fails.mp h
  obtain rfl := Except.ok.inj hok
  dsimp only at h
  rcases hb id with hnone | ⟨found, hfind, hsale | hreversed⟩
  · obtain ⟨entry, hmem, hid⟩ := hsold
    have hentry : entry ∈ itemEntries b id := List.mem_filter.mpr ⟨hmem, by simpa using hid⟩
    rw [List.map_eq_nil_iff] at hnone
    rw [hnone] at hentry
    cases hentry
  · rw [hitem] at hfind
    obtain rfl := Option.some.inj hfind
    have htypes : existingOrderEntryTypes b id = saleTypes := by
      rw [existingOrderEntryTypes_eq, hsale]
      rfl
    have hcreator : item.creatorAmount ≠ 0 := hfound (by rw [hsale]; exact List.mem_cons_self)
    have hfee : item.platformFeeAmount ≠ 0 :=
      hfound (by rw [hsale]; exact List.mem_cons_of_mem _ List.mem_cons_self)
    rw [htypes, if_neg (by decide)] at h
    obtain h | ⟨_, -, h⟩ := bind_fails.mp h
    · cases h
    obtain h | ⟨_, -, h⟩ := bind_fails.mp h
    · cases h
    obtain h | ⟨b₁, h₁, h⟩ := bind_fails.mp h
    · exact (orFail_eq_error.mp h).2.symm
    -- the two entries of the reversal are new, so both are appended
    obtain ⟨hposted, -⟩ := applyAvailableDelta_commits (orFail_eq_ok.mp h₁)
    have htypes₁ : existingOrderEntryTypes b₁ id = saleTypes := by
      rw [← htypes]
      unfold existingOrderEntryTypes
      rw [hposted.ledger, List.append_nil]
      rfl
    obtain ⟨debit, hdebit, htypes₂⟩ := appendOrderEntry_of_new b₁ (some item.creatorId) id
      .creatorAvailable (-item.creatorAmount) .creatorReversal (neg_ne_zero.mpr hcreator)
      (.inr ⟨by simp, by simp⟩) (by rw [htypes₁]; decide)
    rw [htypes₁] at htypes₂
    obtain ⟨fee, hfeeOk, -⟩ := appendOrderEntry_of_new _ none id .platformRevenue
      (-item.platformFeeAmount) .platformReversal (neg_ne_zero.mpr hfee) (.inl ⟨rfl, rfl⟩)
      (by rw [htypes₂]; decide)
    rw [hdebit] at h
    obtain ⟨⟨⟩⟩ | ⟨_, hok, h⟩ := bind_fails.mp h
    obtain rfl := Except.ok.inj hok
    rw [hfeeOk] at h
    cases h
  · have htypes : existingOrderEntryTypes b id = saleTypes ++ reversalTypes := by
      rw [existingOrderEntryTypes_eq, hreversed]
      rfl
    rw [htypes, if_pos (by decide)] at h
    cases h

/-- How many entries of a type an item has. -/
def entryCount (b : Books) (id : Uuid) (entryType : EntryType) : Nat :=
  (existingOrderEntryTypes b id).count entryType

def itemTotal (b : Books) (id : Uuid) : Int := ((itemEntries b id).map LedgerEntry.signedAmount).sum

theorem itemTotal_eq_rows (b : Books) (id : Uuid) :
    itemTotal b id = (((itemEntries b id).map row).map fun r => r.2.2.2.2.1).sum := by
  rw [List.map_map]
  rfl

/-- At most one pair of each kind, never half of one, no reversal without its sale, and
the sums that go with them. -/
theorem Journaled.pairs (h : Journaled items b) (id : Uuid) :
    entryCount b id .creatorCredit ≤ 1 ∧
    entryCount b id .platformFee = entryCount b id .creatorCredit ∧
    entryCount b id .creatorReversal ≤ entryCount b id .creatorCredit ∧
    entryCount b id .platformReversal = entryCount b id .creatorReversal ∧
    (entryCount b id .creatorReversal = 1 → itemTotal b id = 0) ∧
    (entryCount b id .creatorCredit = 1 → entryCount b id .creatorReversal = 0 →
      ∃ item, items.find? id = some item ∧ itemTotal b id = item.priceAmount) := by
  simp only [entryCount, existingOrderEntryTypes_eq, itemTotal_eq_rows]
  rcases h id with hnone | ⟨item, hitem, hsold | hreversed⟩
  · simp [hnone]
  · have hsplit := item.split
    simp only [hsold, saleRows, List.map_cons, List.map_nil, List.sum_cons, List.sum_nil]
    refine ⟨by decide, by decide, by decide, by decide, by simp, fun _ _ => ⟨item, hitem, ?_⟩⟩
    omega
  · simp only [hreversed, saleRows, reversalRows, List.cons_append, List.nil_append, List.map_cons,
      List.map_nil, List.sum_cons, List.sum_nil]
    refine ⟨by decide, by decide, by decide, by decide, fun _ => ?_, by simp⟩
    omega

end FractalStudio.Finance
