import FractalStudio.Lib.Slots
import FractalStudio.Lib.Transition

/-!
# Hiding an asset that is being sold

`create_draft` and `publish` of the marketplace against `change_visibility` and `soft_delete` of the
assets, statement by statement. The tables hold the committed rows; a transaction writes its rows
when it commits and holds their locks until then. A statement that waits for a row reads it again
once it has it.
-/
namespace FractalStudio.Marketplace.OnSale

open Transition

abbrev AssetId := Nat
abbrev ListingId := Nat
abbrev UserId := Nat
abbrev TxId := Nat

inductive AssetStatus where
  | processing
  | ready
  | failed
  | deleted
  deriving DecidableEq

inductive Visibility where
  | privateAsset
  | hidden
  deriving DecidableEq

inductive ListingStatus where
  | draft
  | published
  | unpublished
  | archived
  deriving DecidableEq

structure Asset where
  ownerId : UserId
  status : AssetStatus
  visibility : Visibility
  deriving DecidableEq

structure Listing where
  assetId : AssetId
  creatorId : UserId
  status : ListingStatus
  deriving DecidableEq

/-- `change_visibility` to one of its values, or `soft_delete`. -/
inductive Mutation where
  | hide
  | reveal
  | softDelete
  deriving DecidableEq

inductive CreateStage where
  | begun
  /-- The row is written and waits for the check of its foreign key. -/
  | inserted
  | referenced
  deriving DecidableEq

inductive PublishStage where
  | begun
  /-- `lock_owned` has the row. -/
  | locked
  /-- `find_owned` has read a draft. -/
  | draft (asset : AssetId)
  /-- `find_publishable_asset` has found the asset. -/
  | publishable (asset : AssetId)
  | written (asset : AssetId)
  deriving DecidableEq

inductive MutationStage where
  | begun
  /-- `find_owned_locked` has the row. -/
  | locked
  | checked
  /-- `SELECT … FOR UPDATE` of the listings: rows to lock, and rows locked. -/
  | selecting (todo held : List ListingId)
  /-- `UPDATE listings`: rows to write, rows locked, and rows written. -/
  | updating (todo held archived : List ListingId)
  /-- Before `UPDATE assets`. -/
  | withdrawn (held archived : List ListingId)
  | written (held archived : List ListingId)
  deriving DecidableEq

inductive Tx where
  | create (asset : AssetId) (principal : UserId) (id : ListingId) (stage : CreateStage)
  | publish (id : ListingId) (principal : UserId) (stage : PublishStage)
  | change (asset : AssetId) (owner : UserId) (mutation : Mutation) (stage : MutationStage)
  deriving DecidableEq

def MutationStage.listings : MutationStage → List ListingId
  | .selecting _ held => held
  | .updating _ held archived => held ++ archived
  | .withdrawn held archived => held ++ archived
  | .written held archived => held ++ archived
  | _ => []

namespace Tx

/-- The row of a listing is locked `FOR UPDATE`, or written. -/
def locksListing (id : ListingId) : Tx → Bool
  | .create _ _ _ _ => false
  | .publish j _ stage => j = id && stage ≠ .begun
  | .change _ _ _ stage => stage.listings.contains id

/-- The row of an asset is locked `FOR UPDATE`. -/
def locksAsset (asset : AssetId) : Tx → Bool
  | .change a _ _ stage => a = asset && stage ≠ .begun
  | _ => false

/-- The row of an asset is locked `FOR KEY SHARE`. -/
def sharesAsset (asset : AssetId) : Tx → Bool
  | .create a _ _ stage => a = asset && stage = .referenced
  | _ => false

/-- A listing of the asset is written and not committed yet. -/
def inserts (asset : AssetId) : Tx → Bool
  | .create a _ _ stage => a = asset && stage ≠ .begun
  | _ => false

end Tx

structure State where
  assets : Table AssetId Asset
  listings : Table ListingId Listing
  txs : Table TxId Tx

def State.put (s : State) (t : TxId) (tx : Tx) : State := { s with txs := s.txs.put t tx }

def State.abort (s : State) (t : TxId) : State := { s with txs := s.txs.erase t }

/-- Another transaction has the lock. -/
def State.other (s : State) (t : TxId) (p : Tx → Bool) : Bool := s.txs.any fun u tx => u ≠ t && p tx

def Listing.live (asset : AssetId) (l : Listing) : Bool :=
  l.assetId = asset && l.status ≠ .archived

/-- What a statement on `asset_id = … AND status <> 'archived'` finds. -/
def State.liveOf (s : State) (asset : AssetId) : List ListingId :=
  (s.listings.select fun _ l => l.live asset).map Prod.fst

def createStep (s : State) (t : TxId) (asset : AssetId) (principal : UserId) (id : ListingId) :
    CreateStage → Option State
  | .begun =>
    -- `uq_listings_one_non_archived_asset` also waits for another insert.
    if (s.assets.find? asset).isSome ∧ s.liveOf asset = [] ∧
        s.other t (Tx.inserts asset) = false then
      some (s.put t (.create asset principal id .inserted))
    else none
  | .inserted =>
    if s.other t (Tx.locksAsset asset) then none
    else some (s.put t (.create asset principal id .referenced))
  | .referenced =>
    (s.listings.insert? id ⟨asset, principal, .draft⟩).map fun listings =>
      { s with listings := listings }.abort t

def publishStep (s : State) (t : TxId) (id : ListingId) (principal : UserId) (previews : Bool) :
    PublishStage → Option State
  | .begun =>
    if (s.listings.find? id).any (fun l => l.creatorId = principal) ∧
        s.other t (Tx.locksListing id) = false then
      some (s.put t (.publish id principal .locked))
    else none
  | .locked =>
    (s.listings.find? id).bind fun l =>
      if l.status = .draft then some (s.put t (.publish id principal (.draft l.assetId))) else none
  | .draft asset =>
    (s.assets.find? asset).bind fun a =>
      if a.ownerId = principal ∧ a.status = .ready ∧ a.visibility = .privateAsset ∧ previews then
        some (s.put t (.publish id principal (.publishable asset)))
      else none
  | .publishable asset => some (s.put t (.publish id principal (.written asset)))
  | .written _ =>
    let listings := s.listings.modify id fun l =>
      if l.status = .draft then { l with status := .published } else l
    some ({ s with listings := listings }.abort t)

def Mutation.allowed : Mutation → AssetStatus → Bool
  | .softDelete, status => status = .ready || status = .failed
  | _, status => status ≠ .deleted

def Mutation.apply : Mutation → Asset → Asset
  | .hide, a => { a with visibility := .hidden }
  | .reveal, a => { a with visibility := .privateAsset }
  | .softDelete, a => { a with status := .deleted, visibility := .hidden }

def changeStep (s : State) (t : TxId) (asset : AssetId) (owner : UserId) (m : Mutation) :
    MutationStage → Option State
  | .begun =>
    if (s.assets.find? asset).any (fun a => a.ownerId = owner) ∧
        s.other t (fun tx => tx.locksAsset asset || tx.sharesAsset asset) = false then
      some (s.put t (.change asset owner m .locked))
    else none
  | .locked =>
    if (s.assets.find? asset).any (fun a => m.allowed a.status) then
      some (s.put t (.change asset owner m .checked))
    else none
  | .checked =>
    match m with
    | .reveal =>
      -- `_has_non_archived_listing`
      if s.liveOf asset = [] then some (s.put t (.change asset owner m (.withdrawn [] []))) else none
    | _ => some (s.put t (.change asset owner m (.selecting (s.liveOf asset) [])))
  | .selecting (id :: todo) held =>
    if s.other t (Tx.locksListing id) then none
    else if (s.listings.find? id).any (Listing.live asset) then
      some (s.put t (.change asset owner m (.selecting todo (id :: held))))
    else some (s.put t (.change asset owner m (.selecting todo held)))
  | .selecting [] held =>
    if held = [] then some (s.put t (.change asset owner m (.withdrawn [] [])))
    else some (s.put t (.change asset owner m (.updating (s.liveOf asset) held [])))
  | .updating (id :: todo) held archived =>
    if s.other t (Tx.locksListing id) then none
    else if (s.listings.find? id).any (Listing.live asset) then
      some (s.put t (.change asset owner m (.updating todo held (id :: archived))))
    else some (s.put t (.change asset owner m (.updating todo held archived)))
  | .updating [] held archived => some (s.put t (.change asset owner m (.withdrawn held archived)))
  | .withdrawn held archived => some (s.put t (.change asset owner m (.written held archived)))
  | .written _ archived =>
    let assets := s.assets.modify asset m.apply
    let listings := s.listings.updateWhere (fun id _ => archived.contains id) fun _ l =>
      { l with status := .archived }
    some ({ s with assets := assets, listings := listings }.abort t)

/-- A transaction before its first statement. -/
def Tx.fresh : Tx → Bool
  | .create _ _ _ stage => stage = .begun
  | .publish _ _ stage => stage = .begun
  | .change _ _ _ stage => stage = .begun

/-- A statement of a transaction, or its commit. -/
inductive Action where
  | begin (t : TxId) (tx : Tx)
  /-- The next statement, or the commit. -/
  | next (t : TxId) (previews : Bool)
  /-- A refusal, an error or a lost connection. -/
  | abort (t : TxId)

def step (s : State) : Action → Option State
  | .begin t tx => if (s.txs.find? t).isNone ∧ tx.fresh then some (s.put t tx) else none
  | .next t previews =>
    (s.txs.find? t).bind fun
      | .create asset principal id stage => createStep s t asset principal id stage
      | .publish id principal stage => publishStep s t id principal previews stage
      | .change asset owner m stage => changeStep s t asset owner m stage
  | .abort t => some (s.abort t)

/-- Nothing is listed and no transaction is open. -/
def IsInitial (s : State) : Prop := s.listings = Table.empty ∧ s.txs = Table.empty

/-! ## The invariant -/

def Asset.sellable (a : Asset) : Prop := a.status ≠ .deleted ∧ a.visibility ≠ .hidden

def Covered (listings : Table ListingId Listing) (asset : AssetId) (ids : List ListingId) : Prop :=
  ∀ id l, listings.find? id = some l → l.live asset = true → id ∈ ids

/-- The draft that a publication has locked. -/
def IsDraft (listings : Table ListingId Listing) (id : ListingId) (asset : AssetId) : Prop :=
  ∃ l, listings.find? id = some l ∧ l.assetId = asset ∧ l.status = .draft

def Sellable (assets : Table AssetId Asset) (asset : AssetId) : Prop :=
  ∃ a, assets.find? asset = some a ∧ a.sellable

/-- What a transaction knows of the committed rows. -/
def Tx.Knows (assets : Table AssetId Asset) (listings : Table ListingId Listing) : Tx → Prop
  | .publish id _ (.draft asset) => IsDraft listings id asset
  | .publish id _ (.publishable asset) => IsDraft listings id asset ∧ Sellable assets asset
  | .publish id _ (.written asset) => IsDraft listings id asset ∧ Sellable assets asset
  | .change asset _ m (.selecting todo held) => m ≠ .reveal → Covered listings asset (todo ++ held)
  | .change asset _ m (.updating todo _ archived) =>
    m ≠ .reveal → Covered listings asset (todo ++ archived)
  | .change asset _ m (.withdrawn _ archived) => m ≠ .reveal → Covered listings asset archived
  | .change asset _ m (.written _ archived) => m ≠ .reveal → Covered listings asset archived
  | _ => True

/-- What holds between the locks, the listings and the assets. -/
structure Inv (s : State) : Prop where
  listingLocks : ∀ t tx u ux id, s.txs.find? t = some tx → s.txs.find? u = some ux →
    tx.locksListing id = true → ux.locksListing id = true → t = u
  assetLocks : ∀ t tx u ux asset, s.txs.find? t = some tx → s.txs.find? u = some ux →
    tx.locksAsset asset = true → ux.locksAsset asset = true ∨ ux.sharesAsset asset = true → t = u
  knows : ∀ t tx, s.txs.find? t = some tx → tx.Knows s.assets s.listings
  onSale : ∀ id l, s.listings.find? id = some l → l.status = .published →
    Sellable s.assets l.assetId

section
variable {s s' : State} {t : TxId} {tx : Tx}

theorem not_other {p : Tx → Bool} (h : s.other t p = false) {u : TxId} {ux : Tx} (hu : u ≠ t)
    (hux : s.txs.find? u = some ux) : p ux = false := by
  have hnone := Table.any_eq_false.mp h u ux hux
  simpa [hu] using hnone

theorem covered_liveOf (asset : AssetId) : Covered s.listings asset (s.liveOf asset) := by
  intro id l hl hlive
  exact List.mem_map.mpr ⟨(id, l), Table.mem_select.mpr ⟨hl, hlive⟩, rfl⟩

theorem Inv.move (h : Inv s) (hp : s.txs.find? t = some tx) {tx' : Tx}
    (hlisting : ∀ id, tx'.locksListing id = true → tx.locksListing id = true ∨
      s.other t (Tx.locksListing id) = false)
    (hasset : ∀ asset, tx'.locksAsset asset = true → tx.locksAsset asset = true ∨
      s.other t (fun ux => ux.locksAsset asset || ux.sharesAsset asset) = false)
    (hshare : ∀ asset, tx'.sharesAsset asset = true → tx.sharesAsset asset = true ∨
      s.other t (Tx.locksAsset asset) = false)
    (hknows : tx'.Knows s.assets s.listings) : Inv (s.put t tx') where
  listingLocks u ux v vx id hu hv hul hvl := by
    rcases Table.find?_of_put hu with ⟨hut, hux⟩ | ⟨hut, huo⟩ <;>
      rcases Table.find?_of_put hv with ⟨hvt, hvx⟩ | ⟨hvt, hvo⟩
    · rw [hut, hvt]
    · rw [hux] at hul
      rcases hlisting id hul with hold | hnone
      · rw [hut]
        exact h.listingLocks t tx v vx id hp hvo hold hvl
      · rw [not_other hnone hvt hvo] at hvl
        cases hvl
    · rw [hvx] at hvl
      rcases hlisting id hvl with hold | hnone
      · rw [hvt]
        exact h.listingLocks u ux t tx id huo hp hul hold
      · rw [not_other hnone hut huo] at hul
        cases hul
    · exact h.listingLocks u ux v vx id huo hvo hul hvl
  assetLocks u ux v vx asset hu hv hua hva := by
    rcases Table.find?_of_put hu with ⟨hut, hux⟩ | ⟨hut, huo⟩ <;>
      rcases Table.find?_of_put hv with ⟨hvt, hvx⟩ | ⟨hvt, hvo⟩
    · rw [hut, hvt]
    · rw [hux] at hua
      rcases hasset asset hua with hold | hnone
      · rw [hut]
        exact h.assetLocks t tx v vx asset hp hvo hold hva
      · have hno := not_other hnone hvt hvo
        rw [Bool.or_eq_false_iff] at hno
        rw [hno.1, hno.2] at hva
        rcases hva with hva | hva <;> cases hva
    · rw [hvx] at hva
      rcases hva with hva | hva
      · rcases hasset asset hva with hold | hnone
        · rw [hvt]
          exact h.assetLocks u ux t tx asset huo hp hua (.inl hold)
        · have hno := not_other hnone hut huo
          rw [Bool.or_eq_false_iff] at hno
          rw [hno.1] at hua
          cases hua
      · rcases hshare asset hva with hold | hnone
        · rw [hvt]
          exact h.assetLocks u ux t tx asset huo hp hua (.inr hold)
        · rw [not_other hnone hut huo] at hua
          cases hua
    · exact h.assetLocks u ux v vx asset huo hvo hua hva
  knows u ux hu := by
    rcases Table.find?_of_put hu with ⟨-, hux⟩ | ⟨-, huo⟩
    · rw [hux]
      exact hknows
    · exact h.knows u ux huo
  onSale := h.onSale

variable {assets : Table AssetId Asset} {listings : Table ListingId Listing}

theorem Inv.commit (h : Inv s)
    (hknows : ∀ u ux, u ≠ t → s.txs.find? u = some ux → ux.Knows s.assets s.listings →
      ux.Knows assets listings)
    (hsale : ∀ id l, listings.find? id = some l → l.status = .published →
      Sellable assets l.assetId) :
    Inv ⟨assets, listings, s.txs.erase t⟩ where
  listingLocks u ux v vx id hu hv :=
    h.listingLocks u ux v vx id (Table.find?_of_erase hu).2 (Table.find?_of_erase hv).2
  assetLocks u ux v vx asset hu hv :=
    h.assetLocks u ux v vx asset (Table.find?_of_erase hu).2 (Table.find?_of_erase hv).2
  knows u ux hu := by
    obtain ⟨hut, huo⟩ := Table.find?_of_erase hu
    exact hknows u ux hut huo (h.knows u ux huo)
  onSale := hsale

theorem Inv.abort (h : Inv s) : Inv (s.abort t) :=
  h.commit (fun _ _ _ _ hk => hk) h.onSale

theorem Tx.Knows.mono {assets' : Table AssetId Asset} {listings' : Table ListingId Listing}
    (h : tx.Knows assets listings)
    (hdraft : ∀ id asset, tx.locksListing id = true → IsDraft listings id asset →
      IsDraft listings' id asset)
    (hsell : ∀ id asset, tx.locksListing id = true → IsDraft listings id asset →
      Sellable assets asset → Sellable assets' asset)
    (hcovered : ∀ asset ids, tx.locksAsset asset = true → Covered listings asset ids →
      Covered listings' asset ids) : tx.Knows assets' listings' := by
  cases tx with
  | create asset principal id stage => exact trivial
  | publish id principal stage =>
    cases stage with
    | begun | locked => exact trivial
    | draft asset => exact hdraft id asset (by simp [locksListing]) h
    | publishable asset =>
      have hlock : (publish id principal (.publishable asset)).locksListing id = true := by
        simp [locksListing]
      exact ⟨hdraft id asset hlock h.1, hsell id asset hlock h.1 h.2⟩
    | written asset =>
      have hlock : (publish id principal (.written asset)).locksListing id = true := by
        simp [locksListing]
      exact ⟨hdraft id asset hlock h.1, hsell id asset hlock h.1 h.2⟩
  | change asset owner m stage =>
    cases stage with
    | begun | locked | checked => exact trivial
    | selecting todo held => exact fun hm => hcovered asset _ (by simp [locksAsset]) (h hm)
    | updating todo held archived => exact fun hm => hcovered asset _ (by simp [locksAsset]) (h hm)
    | withdrawn held archived => exact fun hm => hcovered asset _ (by simp [locksAsset]) (h hm)
    | written held archived => exact fun hm => hcovered asset _ (by simp [locksAsset]) (h hm)

variable {asset : AssetId} {id : ListingId} {principal : UserId}

theorem Inv.createStep {stage : CreateStage} (h : Inv s)
    (hp : s.txs.find? t = some (.create asset principal id stage))
    (hs : createStep s t asset principal id stage = some s') : Inv s' := by
  cases stage with
  | begun =>
    rw [OnSale.createStep] at hs
    split at hs
    · obtain rfl := Option.some.inj hs
      refine h.move hp (fun _ hx => by cases hx) (fun _ hx => by cases hx) (fun _ hx => ?_) trivial
      simp [Tx.sharesAsset] at hx
    · cases hs
  | inserted =>
    rw [OnSale.createStep] at hs
    split at hs
    · cases hs
    · next hfree =>
      obtain rfl := Option.some.inj hs
      refine h.move hp (fun _ hx => by cases hx) (fun _ hx => by cases hx) (fun a hx => ?_) trivial
      have ha : asset = a := by simpa [Tx.sharesAsset] using hx
      rw [← ha]
      exact .inr (Bool.eq_false_iff.mpr hfree)
  | referenced =>
    obtain ⟨listings, hins, rfl⟩ := Option.map_eq_some_iff.mp hs
    refine h.commit (fun u ux hut hu hk => hk.mono ?_ (fun _ _ _ _ hsell => hsell) ?_) ?_
    · rintro j a - ⟨l, hl, hasset, hdraft⟩
      exact ⟨l, Table.find?_of_insert hins hl, hasset, hdraft⟩
    · -- Whoever has locked the asset would have kept the reference waiting.
      intro a ids hlock hcovered j l hl hlive
      rw [Table.find?_insert hins] at hl
      split at hl
      · obtain rfl := Option.some.inj hl
        have ha : asset = a := by
          have hboth : asset = a ∧ ListingStatus.draft ≠ .archived := by
            simpa [Listing.live] using hlive
          exact hboth.1
        rw [← ha] at hlock
        exact absurd (h.assetLocks u ux t _ asset hu hp hlock (.inr (by simp [Tx.sharesAsset]))) hut
      · exact hcovered j l hl hlive
    · intro j l hl hpublished
      rw [Table.find?_insert hins] at hl
      split at hl
      · obtain rfl := Option.some.inj hl
        cases hpublished
      · exact h.onSale j l hl hpublished

theorem Inv.movePublish {stage stage' : PublishStage} (h : Inv s)
    (hp : s.txs.find? t = some (.publish id principal stage))
    (hlock : stage ≠ .begun ∨ s.other t (Tx.locksListing id) = false)
    (hknows : (Tx.publish id principal stage').Knows s.assets s.listings) :
    Inv (s.put t (.publish id principal stage')) := by
  refine h.move hp (fun j hx => ?_) (fun _ hx => by cases hx) (fun _ hx => by cases hx) hknows
  have hj : id = j ∧ stage' ≠ .begun := by simpa [Tx.locksListing] using hx
  rcases hlock with hold | hfree
  · exact .inl (by simp [Tx.locksListing, hj.1, hold])
  · rw [← hj.1]
    exact .inr hfree

theorem Inv.publishStep {previews : Bool} {stage : PublishStage} (h : Inv s)
    (hp : s.txs.find? t = some (.publish id principal stage))
    (hs : publishStep s t id principal previews stage = some s') : Inv s' := by
  cases stage with
  | begun =>
    rw [OnSale.publishStep] at hs
    split at hs
    · next hcond =>
      obtain rfl := Option.some.inj hs
      exact h.movePublish hp (.inr hcond.2) trivial
    · cases hs
  | locked =>
    obtain ⟨l, hl, hs⟩ := Option.bind_eq_some_iff.mp hs
    split at hs
    · next hdraft =>
      obtain rfl := Option.some.inj hs
      exact h.movePublish hp (.inl (by simp)) ⟨l, hl, rfl, hdraft⟩
    · cases hs
  | draft asset =>
    obtain ⟨a, ha, hs⟩ := Option.bind_eq_some_iff.mp hs
    split at hs
    · next hcond =>
      obtain rfl := Option.some.inj hs
      refine h.movePublish hp (.inl (by simp)) ⟨h.knows t _ hp, a, ha, ?_, ?_⟩
      · rw [hcond.2.1]
        decide
      · rw [hcond.2.2.1]
        decide
    · cases hs
  | publishable asset =>
    obtain rfl := Option.some.inj hs
    have hknows := h.knows t _ hp
    exact h.movePublish hp (.inl (by simp)) hknows
  | written asset =>
    obtain rfl := Option.some.inj hs
    obtain ⟨⟨l, hl, hasset, hdraft⟩, hsell⟩ := h.knows t _ hp
    refine h.commit (fun u ux hut hu hk => hk.mono ?_ (fun _ _ _ _ hsell => hsell) ?_) ?_
    · rintro j a hlock ⟨m, hm, hma, hmd⟩
      have hj : j ≠ id := by
        rintro rfl
        exact hut (h.listingLocks u ux t _ j hu hp hlock (by simp [Tx.locksListing]))
      exact ⟨m, (Table.find?_modify_ne s.listings _ hj).trans hm, hma, hmd⟩
    · intro a ids _ hcovered j m hm hlive
      rw [Table.find?_modify] at hm
      split at hm
      · next hj =>
        obtain ⟨m₀, hm₀, rfl⟩ := Option.map_eq_some_iff.mp hm
        refine hcovered j m₀ hm₀ ?_
        split at hlive
        · next hd =>
          have ha : m₀.assetId = a := by
            have hboth : m₀.assetId = a ∧ ListingStatus.published ≠ .archived := by
              simpa [Listing.live] using hlive
            exact hboth.1
          simp [Listing.live, ha, hd]
        · exact hlive
      · exact hcovered j m hm hlive
    · intro j m hm hpublished
      rw [Table.find?_modify] at hm
      split at hm
      · next hj =>
        obtain ⟨m₀, hm₀, rfl⟩ := Option.map_eq_some_iff.mp hm
        rw [hj, hl] at hm₀
        obtain rfl := Option.some.inj hm₀
        rw [if_pos hdraft, hasset]
        exact hsell
      · exact h.onSale j m hm hpublished

/-! ## Hiding, showing and deleting -/

variable {m : Mutation} {owner : UserId}

theorem Inv.moveChange {stage stage' : MutationStage} (h : Inv s)
    (hp : s.txs.find? t = some (.change asset owner m stage)) (hlock : stage ≠ .begun ∨
      s.other t (fun tx => tx.locksAsset asset || tx.sharesAsset asset) = false)
    (hlisting : ∀ id ∈ stage'.listings, id ∈ stage.listings ∨
      s.other t (Tx.locksListing id) = false)
    (hknows : (Tx.change asset owner m stage').Knows s.assets s.listings) :
    Inv (s.put t (.change asset owner m stage')) := by
  refine h.move hp (fun id hx => ?_) (fun a hx => ?_) (fun _ hx => by cases hx) hknows
  · have hmem : id ∈ stage'.listings := by simpa [Tx.locksListing] using hx
    rcases hlisting id hmem with hold | hfree
    · exact .inl (by simpa [Tx.locksListing] using hold)
    · exact .inr hfree
  · have ha : asset = a ∧ stage' ≠ .begun := by simpa [Tx.locksAsset] using hx
    rcases hlock with hold | hfree
    · exact .inl (by simp [Tx.locksAsset, ha.1, hold])
    · rw [← ha.1]
      exact .inr hfree

theorem Sellable.change {a : AssetId} (h : Sellable assets a) (hm : a = asset → m = .reveal) :
    Sellable (assets.modify asset m.apply) a := by
  obtain ⟨row, hrow, hstatus, hvisibility⟩ := h
  by_cases ha : a = asset
  · obtain rfl := hm ha
    rw [ha] at hrow ⊢
    refine ⟨_, (Table.find?_modify_self assets asset _).trans (congrArg _ hrow), hstatus, ?_⟩
    intro hx
    cases hx
  · exact ⟨row, (Table.find?_modify_ne assets _ ha).trans hrow, hstatus, hvisibility⟩

/-- Going to the next listing keeps every live one taken or ahead. -/
theorem Covered.next {todo taken : List ListingId}
    (h : Covered listings asset (id :: todo ++ taken)) :
    Covered listings asset (todo ++ id :: taken) ∧
      (¬ (listings.find? id).any (Listing.live asset) = true →
        Covered listings asset (todo ++ taken)) := by
  constructor
  · intro j l hl hlive
    have hmem := h j l hl hlive
    simp only [List.cons_append, List.mem_cons, List.mem_append] at hmem ⊢
    rcases hmem with hj | hj | hj
    · exact .inr (.inl hj)
    · exact .inl hj
    · exact .inr (.inr hj)
  · intro hdead j l hl hlive
    rcases List.mem_cons.mp (h j l hl hlive) with hj | hj
    · rw [hj] at hl
      rw [hl] at hdead
      exact absurd hlive hdead
    · exact hj

theorem Inv.commitChange {held archived : List ListingId} (h : Inv s)
    (hp : s.txs.find? t = some (.change asset owner m (.written held archived))) :
    Inv (State.abort { s with
      assets := s.assets.modify asset m.apply
      listings := s.listings.updateWhere (fun id _ => archived.contains id) fun _ l =>
        { l with status := .archived } } t) := by
  have hcovered : m ≠ .reveal → Covered s.listings asset archived := h.knows t _ hp
  have hlocks : ∀ id ∈ archived,
      (Tx.change asset owner m (.written held archived)).locksListing id = true := by
    intro id hid
    simp [Tx.locksListing, MutationStage.listings, hid]
  refine h.commit (fun u ux hut hu hk => hk.mono ?_ ?_ ?_) ?_
  · rintro id a hlock ⟨l, hl, hla, hld⟩
    refine ⟨l, ?_, hla, hld⟩
    have hid : id ∉ archived := fun hmem =>
      hut (h.listingLocks u ux t _ id hu hp hlock (hlocks id hmem))
    rw [Table.find?_updateWhere, hl, Option.map_some, if_neg]
    simpa using hid
  · rintro id a hlock ⟨l, hl, hla, hld⟩ hsell
    refine hsell.change fun ha => ?_
    by_contra hm
    have hmem : id ∈ archived := hcovered hm id l hl (by simp [Listing.live, hla, hld, ha])
    exact hut (h.listingLocks u ux t _ id hu hp hlock (hlocks id hmem))
  · intro a ids _ hids id l hl hlive
    rw [Table.find?_updateWhere] at hl
    obtain ⟨l₀, hl₀, rfl⟩ := Option.map_eq_some_iff.mp hl
    refine hids id l₀ hl₀ ?_
    split at hlive
    · simp [Listing.live] at hlive
    · exact hlive
  · intro id l hl hpublished
    rw [Table.find?_updateWhere] at hl
    obtain ⟨l₀, hl₀, rfl⟩ := Option.map_eq_some_iff.mp hl
    split at hpublished
    · cases hpublished
    · next hid =>
      rw [if_neg hid]
      refine (h.onSale id l₀ hl₀ hpublished).change fun ha => ?_
      by_contra hm
      have hmem := hcovered hm id l₀ hl₀ (by simp [Listing.live, ha, hpublished])
      exact hid (by simpa using hmem)

theorem Inv.changeStep {stage : MutationStage} (h : Inv s)
    (hp : s.txs.find? t = some (.change asset owner m stage))
    (hs : changeStep s t asset owner m stage = some s') : Inv s' := by
  cases stage with
  | begun =>
    rw [OnSale.changeStep] at hs
    split at hs
    · next hcond =>
      obtain rfl := Option.some.inj hs
      exact h.moveChange hp (.inr hcond.2) (fun _ hid => by cases hid) trivial
    · cases hs
  | locked =>
    rw [OnSale.changeStep] at hs
    split at hs
    · obtain rfl := Option.some.inj hs
      exact h.moveChange hp (.inl (by simp)) (fun _ hid => by cases hid) trivial
    · cases hs
  | checked =>
    cases m with
    | reveal =>
      rw [OnSale.changeStep] at hs
      split at hs
      · obtain rfl := Option.some.inj hs
        exact h.moveChange hp (.inl (by simp)) (fun _ hid => by cases hid) fun hm => absurd rfl hm
      · cases hs
    | hide =>
      obtain rfl := Option.some.inj hs
      refine h.moveChange hp (.inl (by simp)) (fun _ hid => by cases hid) fun _ => ?_
      rw [List.append_nil]
      exact covered_liveOf asset
    | softDelete =>
      obtain rfl := Option.some.inj hs
      refine h.moveChange hp (.inl (by simp)) (fun _ hid => by cases hid) fun _ => ?_
      rw [List.append_nil]
      exact covered_liveOf asset
  | selecting todo held =>
    have hcovered : m ≠ .reveal → Covered s.listings asset (todo ++ held) := h.knows t _ hp
    cases todo with
    | nil =>
      rw [OnSale.changeStep] at hs
      split at hs
      · next hnil =>
        obtain rfl := Option.some.inj hs
        refine h.moveChange hp (.inl (by simp)) (fun _ hid => by cases hid) fun hm => ?_
        rw [hnil] at hcovered
        exact hcovered hm
      · obtain rfl := Option.some.inj hs
        refine h.moveChange hp (.inl (by simp)) (fun id hid => .inl ?_) fun _ => ?_
        · simpa [MutationStage.listings] using hid
        · rw [List.append_nil]
          exact covered_liveOf asset
    | cons id todo =>
      rw [OnSale.changeStep] at hs
      split at hs
      · cases hs
      next hfree =>
      split at hs
      · obtain rfl := Option.some.inj hs
        refine h.moveChange hp (.inl (by simp)) (fun j hj => ?_) fun hm => (hcovered hm).next.1
        rcases List.mem_cons.mp hj with hj | hj
        · rw [hj]
          exact .inr (Bool.eq_false_iff.mpr hfree)
        · exact .inl hj
      · next hdead =>
        obtain rfl := Option.some.inj hs
        exact h.moveChange hp (.inl (by simp)) (fun j hj => .inl hj) fun hm =>
          (hcovered hm).next.2 hdead
  | updating todo held archived =>
    have hcovered : m ≠ .reveal → Covered s.listings asset (todo ++ archived) := h.knows t _ hp
    cases todo with
    | nil =>
      obtain rfl := Option.some.inj hs
      exact h.moveChange hp (.inl (by simp)) (fun j hj => .inl hj) hcovered
    | cons id todo =>
      rw [OnSale.changeStep] at hs
      split at hs
      · cases hs
      next hfree =>
      split at hs
      · obtain rfl := Option.some.inj hs
        refine h.moveChange hp (.inl (by simp)) (fun j hj => ?_) fun hm => (hcovered hm).next.1
        simp only [MutationStage.listings, List.mem_append, List.mem_cons] at hj ⊢
        rcases hj with hj | hj | hj
        · exact .inl (.inl hj)
        · rw [hj]
          exact .inr (Bool.eq_false_iff.mpr hfree)
        · exact .inl (.inr hj)
      · next hdead =>
        obtain rfl := Option.some.inj hs
        exact h.moveChange hp (.inl (by simp)) (fun j hj => .inl hj) fun hm =>
          (hcovered hm).next.2 hdead
  | withdrawn held archived =>
    obtain rfl := Option.some.inj hs
    have hknows := h.knows t _ hp
    exact h.moveChange hp (.inl (by simp)) (fun j hj => .inl hj) hknows
  | written held archived =>
    obtain rfl := Option.some.inj hs
    exact h.commitChange hp

/-! ## Runs -/

theorem Inv.begin (h : Inv s) (hfresh : tx.fresh = true) : Inv (s.put t tx) := by
  have hlisting : ∀ id, tx.locksListing id = false := by
    intro id
    cases tx with
    | create => rfl
    | publish j principal stage =>
      obtain rfl : stage = .begun := by simpa [Tx.fresh] using hfresh
      simp [Tx.locksListing]
    | change asset owner m stage =>
      obtain rfl : stage = .begun := by simpa [Tx.fresh] using hfresh
      rfl
  have hasset : ∀ asset, tx.locksAsset asset = false ∧ tx.sharesAsset asset = false := by
    intro asset
    cases tx with
    | create a principal id stage =>
      obtain rfl : stage = .begun := by simpa [Tx.fresh] using hfresh
      exact ⟨rfl, by simp [Tx.sharesAsset]⟩
    | publish => exact ⟨rfl, rfl⟩
    | change a owner m stage =>
      obtain rfl : stage = .begun := by simpa [Tx.fresh] using hfresh
      exact ⟨by simp [Tx.locksAsset], rfl⟩
  have hknows : tx.Knows s.assets s.listings := by
    cases tx with
    | create => exact trivial
    | publish j principal stage =>
      obtain rfl : stage = .begun := by simpa [Tx.fresh] using hfresh
      exact trivial
    | change asset owner m stage =>
      obtain rfl : stage = .begun := by simpa [Tx.fresh] using hfresh
      exact trivial
  refine ⟨?_, ?_, ?_, h.onSale⟩
  · intro u ux v vx id hu hv hul hvl
    rcases Table.find?_of_put hu with ⟨-, hux⟩ | ⟨-, huo⟩
    · rw [hux, hlisting] at hul
      cases hul
    rcases Table.find?_of_put hv with ⟨-, hvx⟩ | ⟨-, hvo⟩
    · rw [hvx, hlisting] at hvl
      cases hvl
    exact h.listingLocks u ux v vx id huo hvo hul hvl
  · intro u ux v vx asset hu hv hua hva
    rcases Table.find?_of_put hu with ⟨-, hux⟩ | ⟨-, huo⟩
    · rw [hux, (hasset asset).1] at hua
      cases hua
    rcases Table.find?_of_put hv with ⟨-, hvx⟩ | ⟨-, hvo⟩
    · rw [hvx, (hasset asset).1, (hasset asset).2] at hva
      rcases hva with hva | hva <;> cases hva
    exact h.assetLocks u ux v vx asset huo hvo hua hva
  · intro u ux hu
    rcases Table.find?_of_put hu with ⟨-, hux⟩ | ⟨-, huo⟩
    · rw [hux]
      exact hknows
    · exact h.knows u ux huo

/-- Every statement keeps the invariant. -/
theorem Inv.step {a : Action} (h : Inv s) (hs : step s a = some s') : Inv s' := by
  cases a with
  | begin t tx =>
    rw [OnSale.step] at hs
    split at hs
    · next hcond =>
      obtain rfl := Option.some.inj hs
      exact h.begin hcond.2
    · cases hs
  | next t previews =>
    obtain ⟨tx, hp, hs⟩ := Option.bind_eq_some_iff.mp hs
    cases tx with
    | create asset principal id stage => exact h.createStep hp hs
    | publish id principal stage => exact h.publishStep hp hs
    | change asset owner m stage => exact h.changeStep hp hs
  | abort t =>
    obtain rfl := Option.some.inj hs
    exact h.abort

/-- Nothing has been published or hidden at first. -/
theorem Inv.init (h : IsInitial s) : Inv s := by
  obtain ⟨hlistings, htxs⟩ := h
  refine ⟨fun u ux v vx id hu => ?_, fun u ux v vx asset hu => ?_, fun u ux hu => ?_,
    fun id l hl => ?_⟩
  · rw [htxs] at hu
    cases hu
  · rw [htxs] at hu
    cases hu
  · rw [htxs] at hu
    cases hu
  · rw [hlistings] at hl
    cases hl

end

/-- No committed published listing refers to a deleted or hidden asset. -/
theorem published_sellable {s : State} (h : Reach IsInitial step Free s) {id : ListingId}
    {l : Listing} (hl : s.listings.find? id = some l) (hpublished : l.status = .published) :
    ∃ a, s.assets.find? l.assetId = some a ∧ a.status ≠ .deleted ∧ a.visibility ≠ .hidden := by
  have hinv : Inv s := h.invariant (fun _ => Inv.init) fun _ _ _ hi _ => hi.step
  exact hinv.onSale id l hl hpublished

def oneAsset : State := ⟨Table.empty.put 1 ⟨7, .ready, .privateAsset⟩, Table.empty, Table.empty⟩

theorem isInitial_oneAsset : IsInitial oneAsset := ⟨rfl, rfl⟩

/-- A listing is drafted and published while its owner waits to hide the asset. -/
def hiddenLate : List Action :=
  [.begin 1 (.create 1 7 10 .begun), .next 1 true, .next 1 true, .next 1 true,
    .begin 2 (.publish 10 7 .begun), .next 2 true, .begin 3 (.change 1 7 .hide .begun),
    .next 3 true, .next 3 true, .next 3 true, .next 2 true, .next 2 true, .next 2 true, .next 2 true]

theorem hiddenLate_runs : (exec step oneAsset hiddenLate).isSome = true := by
  decide +kernel

def hiddenLateEnd : State := (exec step oneAsset hiddenLate).get hiddenLate_runs

/-- The listing was published before its asset was hidden. -/
theorem published_sellable_hiddenLate :
    ∃ a, hiddenLateEnd.assets.find? 1 = some a ∧ a.status ≠ .deleted ∧ a.visibility ≠ .hidden := by
  have hreach : Reach IsInitial step Free hiddenLateEnd :=
    reach_of_exec isInitial_oneAsset (Option.some_get hiddenLate_runs).symm
  have hl : hiddenLateEnd.listings.find? 10 = some ⟨1, 7, .published⟩ := by decide +kernel
  exact published_sellable hreach hl rfl

end FractalStudio.Marketplace.OnSale
