import FractalStudio.Finance.Ledger
import Mathlib.Algebra.Order.Round
import Mathlib.Data.Rat.Floor
import Mathlib.Tactic.Linarith

/-!
# The frozen split of a checkout

`CheckoutService._split` rounds the platform's fee to a cent, half up, and leaves the
rest to the creator. The sale journal appends one entry for each part, and an entry
may not be zero: an item can be settled when the rounding leaves both parts a cent.
-/
namespace FractalStudio.Commerce

open Platform Finance Txn

/-- `CheckoutService._split`: the creator's amount and the platform's fee. -/
def split (platformFeeBps : Nat) (price : Int) : Int × Int :=
  let fee := round ((price : ℚ) * platformFeeBps / 10000)
  (price - fee, fee)

theorem split_sum (bps : Nat) (price : Int) : (split bps price).1 + (split bps price).2 = price :=
  sub_add_cancel _ _

theorem le_fee_iff (bps : Nat) (price q : Int) :
    q ≤ (split bps price).2 ↔ 10000 * q ≤ price * bps + 5000 := by
  rw [split, round_eq, Int.le_floor]
  have hcast : (q : ℚ) ≤ (price : ℚ) * bps / 10000 + 1 / 2 ↔
      (10000 * q : ℚ) ≤ (price : ℚ) * bps + 5000 := by
    constructor <;> intro h <;> linarith
  rw [hcast]
  exact_mod_cast Iff.rfl

theorem fee_pos_iff (bps : Nat) (price : Int) : 0 < (split bps price).2 ↔ 5000 ≤ price * bps := by
  have h := le_fee_iff bps price 1
  constructor
  · intro hpos
    have := h.mp hpos
    omega
  · intro hle
    exact h.mpr (by omega)

theorem creatorAmount_pos_iff (bps : Nat) (price : Int) :
    0 < (split bps price).1 ↔ 5000 < price * (10000 - bps) := by
  have hsum := split_sum bps price
  have hfee := le_fee_iff bps price price
  have hdistrib : price * (10000 - bps) = 10000 * price - price * bps := by
    rw [mul_sub, mul_comm price 10000]
  constructor
  · intro hpos
    have hlt : ¬ price ≤ (split bps price).2 := by omega
    rw [hfee] at hlt
    omega
  · intro hlt
    have hnot : ¬ price ≤ (split bps price).2 := by
      rw [hfee]
      omega
    omega

theorem split_nonneg {bps : Nat} {price : Int} (hprice : 1 ≤ price) (hbps : bps ≤ 10000) :
    0 ≤ (split bps price).1 ∧ 0 ≤ (split bps price).2 := by
  have hsum := split_sum bps price
  have hlow : 0 ≤ price * bps := mul_nonneg (by omega) (Int.natCast_nonneg bps)
  have hhigh : price * bps ≤ price * 10000 :=
    mul_le_mul_of_nonneg_left (by exact_mod_cast hbps) (by omega)
  have hfee : 0 ≤ (split bps price).2 := (le_fee_iff bps price 0).mpr (by omega)
  have htop : ¬ price + 1 ≤ (split bps price).2 := by
    rw [le_fee_iff]
    omega
  constructor <;> omega

/-! ## Settling an item -/

/-- What a settlement needs of a price at a rate: the split adds up, a first `record_sale` with it
commits, and no `reverse_sale` breaks a constraint of the journal. -/
def Settles (bps : Nat) (price : Int) : Prop :=
  0 ≤ (split bps price).1 ∧ 0 ≤ (split bps price).2 ∧
  (split bps price).1 + (split bps price).2 = price ∧
  ∀ (items : Table Uuid OrderItem) (id : Uuid) (item : OrderItem), items.find? id = some item →
    (item.creatorAmount, item.platformFeeAmount) = split bps price →
    (∀ b, existingOrderEntryTypes b id = [] → ∃ b', recordSale items b id = .ok b') ∧
    ∀ b constraint, reverseSale items b id ≠ .error (.integrity constraint)

/-- A reversal of nonzero parts breaks no constraint: it commits, or the ledger or the
creator's balance refuses it. -/
theorem reverseSale_no_integrity {items : Table Uuid OrderItem} {b : Books} {id : Uuid}
    {item : OrderItem} (hitem : items.find? id = some item) (hcreator : item.creatorAmount ≠ 0)
    (hfee : item.platformFeeAmount ≠ 0) (constraint : String) :
    reverseSale items b id ≠ .error (.integrity constraint) := by
  intro h
  rcases bind_fails.mp h with h | ⟨found, hfound, h⟩
  · rw [lockedValidItem_commits.mpr hitem] at h
    cases h
  · rw [lockedValidItem_commits, hitem] at hfound
    obtain rfl := Option.some.inj hfound
    dsimp only at h
    split at h
    · cases h
    · rcases bind_fails.mp h with h | ⟨_, hnew, h⟩
      · simp at h
      rcases bind_fails.mp h with h | ⟨_, _, h⟩
      · simp at h
      rcases bind_fails.mp h with h | ⟨b₁, h₁, h⟩
      · simp at h
      rw [require_eq_ok, Bool.not_eq_true', List.any_eq_false] at hnew
      have htypes : existingOrderEntryTypes b₁ id = existingOrderEntryTypes b id := by
        have hposted := (applyAvailableDelta_commits (orFail_eq_ok.mp h₁)).1
        unfold existingOrderEntryTypes
        rw [hposted.ledger, List.append_nil]
        rfl
      obtain ⟨debit, hdebit, hafter⟩ := appendOrderEntry_of_new b₁ (some item.creatorId) id
        .creatorAvailable (-item.creatorAmount) .creatorReversal (by omega)
        (.inr ⟨by simp, by simp⟩) (by rw [htypes]; simpa using hnew _ List.mem_cons_self)
      rw [htypes] at hafter
      obtain ⟨refund, hrefund, -⟩ := appendOrderEntry_of_new _ none id .platformRevenue
        (-item.platformFeeAmount) .platformReversal (by omega) (.inl ⟨rfl, rfl⟩)
        (by rw [hafter]; simpa using hnew _ (by simp [reversalTypes]))
      rcases bind_fails.mp h with h | ⟨b₂, h₂, h⟩
      · rw [hdebit] at h
        cases h
      · rw [hdebit] at h₂
        obtain rfl := Except.ok.inj h₂
        rw [hrefund] at h
        cases h

/-- An item with the split of a checkout, for a price of at least a cent. -/
def itemOf (bps : Nat) (price : Int) (hprice : 1 ≤ price) (hbps : bps ≤ 10000) : OrderItem :=
  ⟨0, 0, 0, 0, price, "mvp-v1", (split bps price).1, (split bps price).2, hprice,
    (split_nonneg hprice hbps).1, (split_nonneg hprice hbps).2, split_sum bps price⟩

/-- A price can be settled at a rate exactly when the rounding leaves both parts a cent. -/
theorem settles_iff (bps : Nat) (price : Int) (hprice : 1 ≤ price) (hbps : bps ≤ 10000) :
    Settles bps price ↔ 5000 ≤ price * bps ∧ 5000 < price * (10000 - bps) := by
  obtain ⟨hcreator, hfee⟩ := split_nonneg hprice hbps
  rw [← fee_pos_iff, ← creatorAmount_pos_iff]
  constructor
  · intro h
    -- the first sale of an item with this split tells
    have hempty : (Table.empty : Table Uuid OrderItem).find? 0 = none := rfl
    obtain ⟨items, hitems⟩ := Table.exists_insert hempty (itemOf bps price hprice hbps)
    have hitem := Table.find?_insert hitems 0
    rw [if_pos rfl] at hitem
    obtain ⟨b', hb'⟩ := (h.2.2.2 items 0 _ hitem rfl).1 .empty rfl
    obtain ⟨item, hfound, ⟨_, hsold⟩ | ⟨_, hnonzero, hfeeNonzero, _⟩⟩ := recordSale_commits hb'
    · exact absurd (hsold _ List.mem_cons_self) List.not_mem_nil
    · rw [hitem] at hfound
      obtain rfl := Option.some.inj hfound
      simp only [itemOf] at hnonzero hfeeNonzero
      constructor <;> omega
  · rintro ⟨hfeePos, hcreatorPos⟩
    refine ⟨hcreator, hfee, split_sum bps price, fun items id item hitem hsplit => ?_⟩
    have hc : item.creatorAmount = (split bps price).1 := congrArg Prod.fst hsplit
    have hf : item.platformFeeAmount = (split bps price).2 := congrArg Prod.snd hsplit
    constructor
    · intro b hfresh
      exact recordSale_of_fresh hitem hfresh (by omega) (by omega)
    · intro b constraint
      exact reverseSale_no_integrity hitem (by omega) (by omega) constraint

/-- A price of one yuan at the default rate can be settled. -/
theorem settles_iff_one_yuan : Settles 2000 100 :=
  (settles_iff 2000 100 (by decide) (by decide)).mpr (by decide)

def oneCentItem : OrderItem :=
  ⟨0, 0, 0, 0, 1, "mvp-v1", 1, 0, by decide, by decide, by decide, by decide⟩

def oneCentItems : Table Uuid OrderItem := Table.empty.insertIfAbsent 0 oneCentItem

/-- One cent at the default rate: the fee rounds to nothing, and the constraint on the
journal refuses the sale of the item. -/
theorem one_cent_not_settled :
    split 2000 1 = (oneCentItem.creatorAmount, oneCentItem.platformFeeAmount) ∧
    recordSale oneCentItems .empty 0 = .error (.integrity "ck_ledger_entries_nonzero") ∧
    ¬ Settles 2000 1 := by
  have hsplit : split 2000 1 = (oneCentItem.creatorAmount, oneCentItem.platformFeeAmount) := by
    decide +kernel
  have hrefused : recordSale oneCentItems .empty 0 =
      .error (.integrity "ck_ledger_entries_nonzero") := rfl
  refine ⟨hsplit, hrefused, fun h => ?_⟩
  obtain ⟨b', hb'⟩ := (h.2.2.2 oneCentItems 0 oneCentItem rfl hsplit.symm).1 .empty rfl
  rw [hrefused] at hb'
  cases hb'

end FractalStudio.Commerce
