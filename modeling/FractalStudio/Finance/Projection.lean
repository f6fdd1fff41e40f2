import FractalStudio.Finance.Payout
import FractalStudio.Lib.Transition

/-!
# The balances are a projection of the journal

The runs of the sale ledger and the payout service over one database. In every
reachable state a creator's balance row agrees with the journal and with the payout
requests: each transaction moves the three sides by the same amounts.
-/
namespace FractalStudio.Finance

open Platform Txn Transition

/-- The tables the six transactions read and write. -/
structure Accounts where
  items : Table Uuid OrderItem
  books : Books

inductive Transaction where
  | insertItem (id : Uuid) (item : OrderItem)
  | recordSale (orderItemId : Uuid)
  | reverseSale (orderItemId : Uuid)
  | payout (call : PayoutCall)

/-- The books a transaction on them leaves, unless it is rolled back. -/
def booksAfter (s : Accounts) : Transaction → Txn Failure Books
  | .insertItem _ _ => .ok s.books
  | .recordSale id => recordSale s.items s.books id
  | .reverseSale id => reverseSale s.items s.books id
  | .payout call => Finance.payout s.books call

def commit (s : Accounts) (t : Transaction) : Option Accounts :=
  match t, booksAfter s t with
  | .insertItem id item, _ => (s.items.insert? id item).map fun items => { s with items }
  | _, .ok books => some { s with books }
  | _, .error _ => none

def noAccounts (s : Accounts) : Prop := s = ⟨.empty, .empty⟩

def journal (ledger : List LedgerEntry) (account : LedgerAccount) (creator : Uuid) : Int :=
  (ledger.map fun e =>
    if e.account = account ∧ e.creatorId = some creator then e.signedAmount else 0).sum

def requested (payouts : Table Uuid PayoutRequest) (statuses : List PayoutStatus)
    (creator : Uuid) : Int :=
  payouts.sum fun _ r => if r.creatorId = creator ∧ r.status ∈ statuses then r.amount else 0

/-! ## The journal side -/

theorem journal_append (ledger entries : List LedgerEntry) (account : LedgerAccount) (c : Uuid) :
    journal (ledger ++ entries) account c = journal ledger account c + journal entries account c := by
  simp only [journal, List.map_append, List.sum_append]

/-- What an entry adds to a creator's account, read off its columns. -/
def contribution (account : LedgerAccount) (creator : Uuid) :
    Option Uuid × Option Uuid × Option Uuid × LedgerAccount × Int × EntryType → Int
  | (creatorId, _, _, account', signedAmount, _) =>
    if account' = account ∧ creatorId = some creator then signedAmount else 0

theorem journal_eq_rows (entries : List LedgerEntry) (account : LedgerAccount) (c : Uuid) :
    journal entries account c = ((entries.map row).map (contribution account c)).sum := by
  rw [List.map_map]
  rfl

variable {id : Uuid}

theorem journal_singleton {e : LedgerEntry} {k : Uuid} {amount : Int} {entryType : EntryType}
    (hrow : row e = (some k, none, some id, .creatorReserved, amount, entryType))
    (account : LedgerAccount) (c : Uuid) :
    journal [e] account c = if .creatorReserved = account ∧ k = c then amount else 0 := by
  rw [journal_eq_rows, List.map_singleton, hrow]
  simp [contribution]

variable {entries : List LedgerEntry}

theorem journal_saleRows {item : OrderItem} (hrows : entries.map row = saleRows id item)
    (account : LedgerAccount) (c : Uuid) :
    journal entries account c =
      if .creatorAvailable = account ∧ item.creatorId = c then item.creatorAmount else 0 := by
  rw [journal_eq_rows, hrows]
  simp [saleRows, contribution]

theorem journal_reversalRows {item : OrderItem} (hrows : entries.map row = reversalRows id item)
    (account : LedgerAccount) (c : Uuid) :
    journal entries account c =
      if .creatorAvailable = account ∧ item.creatorId = c then -item.creatorAmount else 0 := by
  rw [journal_eq_rows, hrows]
  simp [reversalRows, contribution]

theorem requested_insert {payouts payouts' : Table Uuid PayoutRequest} {r : PayoutRequest}
    (h : payouts.insert? id r = some payouts') (statuses : List PayoutStatus) (c : Uuid) :
    requested payouts' statuses c =
      requested payouts statuses c +
        if r.creatorId = c ∧ r.status ∈ statuses then r.amount else 0 :=
  Table.sum_insert h _

theorem endRequest_frame (r : PayoutRequest) (ending : Ending) :
    (endRequest r ending).creatorId = r.creatorId ∧ (endRequest r ending).amount = r.amount ∧
      (endRequest r ending).status = ending.status := by
  cases ending <;> exact ⟨rfl, rfl, rfl⟩

theorem requested_endRequest {payouts : Table Uuid PayoutRequest} {r : PayoutRequest}
    (hr : payouts.find? id = some r) (ending : Ending) (statuses : List PayoutStatus) (c : Uuid) :
    requested (payouts.modify id (endRequest · ending)) statuses c +
        (if r.creatorId = c ∧ r.status ∈ statuses then r.amount else 0) =
      requested payouts statuses c +
        if r.creatorId = c ∧ ending.status ∈ statuses then r.amount else 0 := by
  have h := Table.sum_modify hr (endRequest · ending)
    fun _ r => if r.creatorId = c ∧ r.status ∈ statuses then r.amount else 0
  obtain ⟨hcreator, hamount, hstatus⟩ := endRequest_frame r ending
  simp only [hcreator, hamount, hstatus] at h
  exact h

/-! ## The invariant -/

/-- The projection equations, for every creator. -/
structure Projected (b : Books) : Prop where
  reservedJournal : ∀ c, reserved b c = journal b.ledger .creatorReserved c
  reservedPending : ∀ c, reserved b c = requested b.payouts [.pending] c
  availableJournal : ∀ c, available b c =
    journal b.ledger .creatorAvailable c - requested b.payouts [.pending, .paid] c

theorem projected_empty : Projected .empty := by
  constructor <;> intro c <;> rfl

variable {b b' : Books}

/-- A posting to one creator keeps the projection when the entries and the requests
move by what the balance moves by. -/
theorem Projected.posted {k : Uuid} {a r : Int} (hb : Projected b)
    (hp : Posted b b' entries k a r)
    (hreserved : ∀ c, journal entries .creatorReserved c = if c = k then r else 0)
    (hpending : ∀ c, requested b'.payouts [.pending] c =
      requested b.payouts [.pending] c + if c = k then r else 0)
    (havailable : ∀ c, journal entries .creatorAvailable c + requested b.payouts [.pending, .paid] c =
      requested b'.payouts [.pending, .paid] c + if c = k then a else 0) :
    Projected b' := by
  constructor
  · intro c
    rw [hp.reserved, hp.ledger, journal_append, hreserved, hb.reservedJournal]
  · intro c
    rw [hp.reserved, hpending, hb.reservedPending]
  · intro c
    have h := havailable c
    have h0 := hb.availableJournal c
    rw [hp.available, hp.ledger, journal_append]
    omega

theorem projected_recordSale {items : Table Uuid OrderItem} (hb : Projected b)
    (h : recordSale items b id = .ok b') : Projected b' := by
  obtain ⟨item, _, ⟨rfl, _⟩ | ⟨_, _, _, hpayouts, entries, hrows, hposted⟩⟩ := recordSale_commits h
  · exact hb
  · apply hb.posted hposted
    · intro c
      rw [journal_saleRows hrows]
      simp
    · intro c
      rw [hpayouts]
      simp
    · intro c
      rw [journal_saleRows hrows, hpayouts]
      simp [eq_comm, add_comm]

theorem projected_reverseSale {items : Table Uuid OrderItem} (hb : Projected b)
    (h : reverseSale items b id = .ok b') : Projected b' := by
  obtain ⟨item, _, ⟨rfl, _⟩ | ⟨_, _, hpayouts, entries, hrows, hposted⟩⟩ := reverseSale_commits h
  · exact hb
  · apply hb.posted hposted
    · intro c
      rw [journal_reversalRows hrows]
      simp
    · intro c
      rw [hpayouts]
      simp
    · intro c
      rw [journal_reversalRows hrows, hpayouts]
      simp [eq_comm, add_comm]

theorem projected_createRequest {creator : Uuid} {amount : Int} (hb : Projected b)
    (h : createRequest b creator amount id = .ok b') : Projected b' := by
  obtain ⟨minimum, e, hrow, hinsert, hposted⟩ := createRequest_commits h
  apply hb.posted hposted
  · intro c
    rw [journal_singleton hrow]
    simp [eq_comm]
  · intro c
    rw [requested_insert hinsert]
    simp [pendingRequest, eq_comm]
  · intro c
    rw [journal_singleton hrow, requested_insert hinsert]
    by_cases hc : c = creator
    · subst hc
      simp [pendingRequest]
    · have hc' : ¬ creator = c := fun heq => hc heq.symm
      simp [pendingRequest, hc, hc']

theorem projected_ended {r : PayoutRequest} {ending : Ending} (hb : Projected b)
    (h : Ended b b' id r ending) : Projected b' := by
  obtain ⟨e, hrow, hposted⟩ := h.posted
  have hpending : ending.status ≠ .pending := by cases ending <;> simp [Ending.status]
  apply hb.posted hposted
  · intro c
    rw [journal_singleton hrow]
    simp [eq_comm]
  · intro c
    have hmove := requested_endRequest h.found ending [.pending] c
    rw [← h.payouts, h.pending] at hmove
    by_cases hc : c = r.creatorId
    · subst hc
      simp only [List.mem_singleton, hpending, and_true, and_false, if_true, if_false] at hmove ⊢
      omega
    · have hc' : ¬ r.creatorId = c := fun heq => hc heq.symm
      simp only [hc, hc', false_and, if_false] at hmove ⊢
      omega
  · intro c
    have hmove := requested_endRequest h.found ending [.pending, .paid] c
    rw [← h.payouts, h.pending] at hmove
    rw [journal_singleton hrow]
    by_cases hc : c = r.creatorId
    · subst hc
      by_cases hpaid : ending.status = .paid
      · simp [hpaid] at hmove ⊢
        omega
      · simp [hpaid, hpending] at hmove ⊢
        omega
    · have hc' : ¬ r.creatorId = c := fun heq => hc heq.symm
      simp only [hc, hc', false_and, and_false, if_false] at hmove ⊢
      omega

theorem projected_payout {call : PayoutCall} (hb : Projected b) (h : payout b call = .ok b') :
    Projected b' := by
  cases call with
  | createRequest creator amount id => exact projected_createRequest hb h
  | cancelRequest principal id =>
    obtain ⟨r, hended⟩ := cancelRequest_commits h
    exact projected_ended hb hended
  | markPaid operator id reference =>
    obtain ⟨r, hended⟩ := markPaid_commits h
    exact projected_ended hb hended
  | reject operator id reason =>
    obtain ⟨r, hended⟩ := reject_commits h
    exact projected_ended hb hended

theorem projected_booksAfter {s : Accounts} {t : Transaction} (hb : Projected s.books)
    (h : booksAfter s t = .ok b') : Projected b' := by
  cases t with
  | insertItem id item =>
    obtain rfl := Except.ok.inj h
    exact hb
  | recordSale id => exact projected_recordSale hb h
  | reverseSale id => exact projected_reverseSale hb h
  | payout call => exact projected_payout hb h

theorem commit_eq_some {s s' : Accounts} {t : Transaction} (h : commit s t = some s') :
    booksAfter s t = .ok s'.books := by
  unfold commit at h
  split at h
  · obtain ⟨items, _, rfl⟩ := Option.map_eq_some_iff.mp h
    rfl
  · next books hbooks =>
    obtain rfl := Option.some.inj h
    exact hbooks
  · cases h

/-- In every run the balances are what the entries add up to. -/
theorem projected_reachable {s : Accounts} (hr : Reach noAccounts commit Free s) :
    Projected s.books := by
  apply hr.invariant
  · rintro s rfl
    exact projected_empty
  · intro s t s' hs _ hstep
    exact projected_booksAfter hs (commit_eq_some hstep)

/-- Journal, payout requests and balance row of every creator agree in every
reachable state, and the balances are not negative. -/
theorem balance_projection {s : Accounts} (hr : Reach noAccounts commit Free s) (creator : Uuid) :
    reserved s.books creator = journal s.books.ledger .creatorReserved creator ∧
    reserved s.books creator = requested s.books.payouts [.pending] creator ∧
    available s.books creator = journal s.books.ledger .creatorAvailable creator -
      requested s.books.payouts [.pending, .paid] creator ∧
    0 ≤ available s.books creator ∧ 0 ≤ reserved s.books creator :=
  ⟨(projected_reachable hr).reservedJournal creator, (projected_reachable hr).reservedPending creator,
    (projected_reachable hr).availableJournal creator, available_nonneg _ _, reserved_nonneg _ _⟩

def tenYuanItem : OrderItem :=
  ⟨0, 0, 0, 7, 1000, "creator-80-v1", 800, 200, by decide, by decide, by decide, by decide⟩

/-- A creator sells two items, has a payout paid and another one pending. -/
theorem balance_projection_two_payouts :
    ∃ s, Reach noAccounts commit Free s ∧ reserved s.books 7 = 500 ∧ available s.books 7 = 800 ∧
      reserved s.books 7 = journal s.books.ledger .creatorReserved 7 ∧
      available s.books 7 = journal s.books.ledger .creatorAvailable 7 -
        requested s.books.payouts [.pending, .paid] 7 := by
  have hrun : (exec commit ⟨.empty, .empty⟩
      [.insertItem 1 tenYuanItem, .insertItem 2 tenYuanItem, .recordSale 1, .recordSale 2,
        .payout (.createRequest 7 300 1), .payout (.markPaid 9 1 "bank-1"),
        .payout (.createRequest 7 500 2)]).any
      (fun s => reserved s.books 7 = 500 && available s.books 7 = 800) = true := by
    decide +kernel
  obtain ⟨s, hexec, hs⟩ := (Option.any_eq_true _ _).mp hrun
  rw [Bool.and_eq_true, decide_eq_true_eq, decide_eq_true_eq] at hs
  have hr : Reach noAccounts commit Free s := reach_of_exec rfl hexec
  have h := balance_projection hr 7
  exact ⟨s, hr, hs.1, hs.2, h.1, h.2.2.1⟩

end FractalStudio.Finance
