import FractalStudio.Lib.Slots
import FractalStudio.Lib.Txn

/-!
# Listings of the marketplace

`marketplace/repository.py` and the operations of `MarketplaceService` on a listing, with
`withdraw_listings` of the assets. Every operation runs under the row lock of its listing, so it
is a function of the database. Amounts are in fen; a detail read joins the active licence offer.
-/
namespace FractalStudio.Marketplace

open Txn

abbrev ListingId := Nat
abbrev OfferId := Nat
abbrev VersionId := Nat
abbrev AssetId := Nat
abbrev UserId := Nat

inductive Status where
  | draft
  | published
  | unpublished
  | archived
  deriving DecidableEq

structure Terms where
  code : String
  termsVersion : String
  commercialUse : Bool
  redistribution : Bool
  attributionRequired : Bool
  deriving DecidableEq

structure Listing where
  assetId : AssetId
  creatorId : UserId
  status : Status
  title : String
  description : String
  tags : List String
  price : Nat
  currency : String
  publishedAt : Option Nat
  currentPublishedVersionId : Option VersionId
  deriving DecidableEq

structure LicenceOffer where
  listingId : ListingId
  code : String
  termsVersion : String
  terms : Terms
  isActive : Bool
  deriving DecidableEq

structure LicenceSnapshot where
  id : OfferId
  code : String
  termsVersion : String
  terms : Terms
  deriving DecidableEq

structure Snapshot where
  listingId : ListingId
  assetId : AssetId
  creatorId : UserId
  title : String
  description : String
  tags : List String
  price : String
  currency : String
  mediaType : String
  licenceOffer : LicenceSnapshot
  deriving DecidableEq

structure ListingVersion where
  listingId : ListingId
  version : Nat
  snapshot : Snapshot
  publishedAt : Nat
  deriving DecidableEq

structure ListingRecord where
  id : ListingId
  assetId : AssetId
  creatorId : UserId
  status : Status
  title : String
  description : String
  tags : List String
  price : Nat
  currency : String
  publishedAt : Option Nat
  currentPublishedVersionId : Option VersionId
  licenceOfferId : OfferId
  licenceCode : String
  licenceTermsVersion : String
  licenceTerms : Terms
  deriving DecidableEq

structure Database where
  listings : Table ListingId Listing
  licenceOffers : Table OfferId LicenceOffer
  versions : Table VersionId ListingVersion

/-- `format(price, ".2f")`. -/
def priceText (fen : Nat) : String :=
  Nat.repr (fen / 100) ++ "." ++ Nat.repr (fen % 100 / 10) ++ Nat.repr (fen % 10)

/-- `array_agg(lt.tag ORDER BY lt.tag)`. -/
def arrayAgg (tags : List String) : List String := tags.mergeSort fun a b => decide (a ≤ b)

def personal : Terms := ⟨"personal", "v1", false, false, false⟩

def commercial : Terms := ⟨"commercial", "v1", true, false, false⟩

def resolveImmutableTerms (code termsVersion : String) : Option Terms :=
  if code = "personal" ∧ termsVersion = "v1" then some personal
  else if code = "commercial" ∧ termsVersion = "v1" then some commercial
  else none

/-! ## Reads -/

namespace Database
variable (db : Database)

def offersOf (id : ListingId) : List (OfferId × LicenceOffer) :=
  db.licenceOffers.select fun _ o => o.listingId = id

def versionsOf (id : ListingId) : List (VersionId × ListingVersion) :=
  db.versions.select fun _ v => v.listingId = id

end Database

def active (offers : List (OfferId × LicenceOffer)) : List (OfferId × LicenceOffer) :=
  offers.filter fun x => x.2.isActive

def recordOf (id : ListingId) (l : Listing) (offer : OfferId × LicenceOffer) : ListingRecord where
  id := id
  assetId := l.assetId
  creatorId := l.creatorId
  status := l.status
  title := l.title
  description := l.description
  tags := arrayAgg l.tags
  price := l.price
  currency := l.currency
  publishedAt := l.publishedAt
  currentPublishedVersionId := l.currentPublishedVersionId
  licenceOfferId := offer.1
  licenceCode := offer.2.code
  licenceTermsVersion := offer.2.termsVersion
  licenceTerms := offer.2.terms

/-- `_DETAIL_SELECT` of one listing; the unique index keeps the join to one row. -/
def record (id : ListingId) (l : Listing) (offers : List (OfferId × LicenceOffer)) :
    Option ListingRecord :=
  match active offers with
  | [offer] => some (recordOf id l offer)
  | _ => none

def findOwned (db : Database) (id : ListingId) (creatorId : UserId) : Option ListingRecord :=
  (db.listings.find? id).bind fun l =>
    if l.creatorId = creatorId ∧ l.status ≠ .archived then record id l (db.offersOf id) else none

structure PublishedOfferSnapshot where
  listingId : ListingId
  listingVersionId : VersionId
  licenceOfferId : OfferId
  assetId : AssetId
  creatorId : UserId
  price : Nat
  currency : String
  listingSnapshot : Snapshot
  licenceSnapshot : Terms
  deriving DecidableEq

def findPublishedOffer (db : Database) (id : ListingId) (offerId : OfferId) :
    Option PublishedOfferSnapshot := do
  let l ← db.listings.find? id
  let versionId ← l.currentPublishedVersionId
  let v ← db.versions.find? versionId
  let o ← db.licenceOffers.find? offerId
  if l.status = .published ∧ o.listingId = id ∧ o.isActive then
    some ⟨id, versionId, offerId, l.assetId, l.creatorId, l.price, l.currency, v.snapshot, o.terms⟩
  else none

/-! ## Writes of the repository -/

def insertOffer (db : Database) (offerId : OfferId) (o : LicenceOffer) : Txn String Database :=
  if (active (db.offersOf o.listingId)).isEmpty then
    (orFail (db.licenceOffers.insert? offerId o) "licence_offers_pkey").map fun offers =>
      { db with licenceOffers := offers }
  else .error "uq_licence_offers_one_active_listing"

def LicenceOffer.deactivated (o : LicenceOffer) : LicenceOffer := { o with isActive := false }

def deactivateOffers (db : Database) (id : ListingId) : Database :=
  { db with licenceOffers :=
    db.licenceOffers.updateWhere (fun _ o => o.listingId = id && o.isActive) fun _ o =>
      o.deactivated }

structure Licence where
  code : String
  termsVersion : String
  terms : Terms
  deriving DecidableEq

def Licence.offer (licence : Licence) (id : ListingId) : LicenceOffer :=
  ⟨id, licence.code, licence.termsVersion, licence.terms, true⟩

def insertListing (db : Database) (id : ListingId) (l : Listing) : Txn String Database := do
  require (0 < l.price) "ck_listings_price_minimum"
  require (!db.listings.any fun _ m => m.assetId = l.assetId && m.status ≠ .archived)
    "uq_listings_one_non_archived_asset"
  let listings ← orFail (db.listings.insert? id l) "listings_pkey"
  return { db with listings := listings }

/-- The repository's `create_draft`. -/
def insertDraft (db : Database) (id : ListingId) (offerId : OfferId) (l : Listing)
    (licence : Licence) : Txn String Database := do
  let db ← insertListing db id l
  let db ← insertOffer db offerId (licence.offer id)
  require (decide l.tags.Nodup) "listing_tags_pkey"
  return db

/-- `replace_tags` with the other columns that an edit writes. -/
def Listing.edited (l : Listing) (title description : Option String) (tags : Option (List String))
    (price : Option Nat) : Listing :=
  { l with
    status := .draft
    title := title.getD l.title
    description := description.getD l.description
    tags := tags.getD l.tags
    price := price.getD l.price
    publishedAt := none
    currentPublishedVersionId := none }

def replaceOffer (db : Database) (id : ListingId) (offerId : OfferId) :
    Option Licence → Txn String Database
  | none => .ok db
  | some licence => insertOffer (deactivateOffers db id) offerId (licence.offer id)

/-- `jsonb_set(snapshot_json, '{title}', …)`. -/
def ListingVersion.retitled (v : ListingVersion) (title : String) : ListingVersion :=
  { v with snapshot := { v.snapshot with title := title } }

def renamePublished (db : Database) (listing : ListingRecord) (title : String) : Database where
  listings := db.listings.updateWhere (fun j l => j = listing.id && l.status = .published) fun _ l =>
    { l with title := title }
  licenceOffers := db.licenceOffers
  versions := db.versions.updateWhere
    (fun j _ => some j = listing.currentPublishedVersionId) fun _ v => v.retitled title

/-- `COALESCE(MAX(version), 0)`. -/
def latestVersion (db : Database) (id : ListingId) : Nat :=
  ((db.versionsOf id).map fun x => x.2.version).foldr max 0

def publishVersion (db : Database) (listing : ListingRecord) (snapshot : Snapshot)
    (versionId : VersionId) (now : Nat) : Txn String Database := do
  let v : ListingVersion := ⟨listing.id, latestVersion db listing.id + 1, snapshot, now⟩
  let versions ← orFail (db.versions.insert? versionId v) "listing_versions_pkey"
  return { db with
    listings := db.listings.updateWhere (fun j l => j = listing.id && l.status = .draft) fun _ l =>
      { l with
        status := .published
        publishedAt := some now
        currentPublishedVersionId := some versionId }
    versions := versions }

/-- Off the market: the published version is no longer current. -/
def Listing.withdrawn (l : Listing) (status : Status) : Listing :=
  { l with status := status, publishedAt := none, currentPublishedVersionId := none }

/-! ## The operations -/

def snapshot (r : ListingRecord) (mediaType : String) : Snapshot where
  listingId := r.id
  assetId := r.assetId
  creatorId := r.creatorId
  title := r.title
  description := r.description
  tags := r.tags
  price := priceText r.price
  currency := r.currency
  mediaType := mediaType
  licenceOffer := ⟨r.licenceOfferId, r.licenceCode, r.licenceTermsVersion, r.licenceTerms⟩

structure ListingCreateInput where
  assetId : AssetId
  title : String
  description : String
  tags : List String
  price : Nat
  code : String
  termsVersion : String
  deriving DecidableEq

structure ListingUpdateInput where
  title : Option String
  description : Option String
  tags : Option (List String)
  price : Option Nat
  /-- Code and terms version of the licence offer. -/
  licenceOffer : Option (String × String)
  deriving DecidableEq

def resolveUpdateLicence : Option (String × String) → Txn String (Option Licence)
  | none => .ok none
  | some (code, termsVersion) =>
    (orFail (resolveImmutableTerms code termsVersion) "unknown_licence").map fun terms =>
      some ⟨code, termsVersion, terms⟩

section Service
variable (alipayMaxTotalAmount : Nat)

def validatePrice (price : Nat) : Txn String Unit :=
  require (price ≤ alipayMaxTotalAmount) "price_exceeds_alipay_maximum"

def createDraft (db : Database) (principal : UserId) (owned : Bool) (id : ListingId)
    (offerId : OfferId) (payload : ListingCreateInput) : Txn String Database := do
  validatePrice alipayMaxTotalAmount payload.price
  require owned "asset_not_found"
  let terms ← orFail (resolveImmutableTerms payload.code payload.termsVersion) "unknown_licence"
  insertDraft db id offerId
    { assetId := payload.assetId
      creatorId := principal
      status := .draft
      title := payload.title
      description := payload.description
      tags := payload.tags
      price := payload.price
      currency := "CNY"
      publishedAt := none
      currentPublishedVersionId := none }
    ⟨payload.code, payload.termsVersion, terms⟩

/-- A published listing changes its title and nothing else. -/
def renameOnly (db : Database) (current : ListingRecord) (payload : ListingUpdateInput) :
    Txn String Database :=
  match payload with
  | ⟨some title, none, none, none, none⟩ => .ok (renamePublished db current title)
  | _ => .error "listing_not_editable"

/-- The repository's `update_draft`. -/
def editDraft (db : Database) (current : ListingRecord) (offerId : OfferId)
    (payload : ListingUpdateInput) (licence : Option Licence) : Txn String Database := do
  require (payload.price.all fun price => 0 < price) "ck_listings_price_minimum"
  require (payload.tags.all fun tags => decide tags.Nodup) "listing_tags_pkey"
  let listings := db.listings.modify current.id fun l =>
    l.edited payload.title payload.description payload.tags payload.price
  replaceOffer { db with listings := listings } current.id offerId licence

def updateDraft (db : Database) (principal : UserId) (id : ListingId) (offerId : OfferId)
    (payload : ListingUpdateInput) : Txn String Database := do
  require (payload.price.all fun price => price ≤ alipayMaxTotalAmount)
    "price_exceeds_alipay_maximum"
  let licence ← resolveUpdateLicence payload.licenceOffer
  let current ← orFail (findOwned db id principal) "listing_not_found"
  if current.status = .published then renameOnly db current payload
  else if current.status = .draft ∨ current.status = .unpublished then
    editDraft db current offerId payload licence
  else .error "listing_not_editable"

def publish (db : Database) (principal : UserId) (id : ListingId) (publishable : Option String)
    (versionId : VersionId) (now : Nat) : Txn String Database := do
  let current ← orFail (findOwned db id principal) "listing_not_found"
  require (current.status = .draft) "listing_not_publishable"
  let mediaType ← orFail publishable "asset_not_publishable"
  publishVersion db current (snapshot current mediaType) versionId now

def unpublish (db : Database) (principal : UserId) (id : ListingId) : Txn String Database := do
  let current ← orFail (findOwned db id principal) "listing_not_found"
  require (current.status = .published) "listing_not_unpublishable"
  return { db with
    listings := db.listings.updateWhere (fun j l => j = id && l.status = .published) fun _ l =>
      l.withdrawn .unpublished }

def withdrawListings (db : Database) (assetId : AssetId) : Database :=
  { db with
    listings := db.listings.updateWhere
      (fun _ l => l.assetId = assetId && l.status ≠ .archived) fun _ l => l.withdrawn .archived }

inductive Action where
  | createDraft (principal : UserId) (owned : Bool) (id : ListingId) (offerId : OfferId)
      (payload : ListingCreateInput)
  /-- An edit of a draft, or of an unpublished listing, or the new title of a published one. -/
  | updateDraft (principal : UserId) (id : ListingId) (offerId : OfferId)
      (payload : ListingUpdateInput)
  | publish (principal : UserId) (id : ListingId) (publishable : Option String)
      (versionId : VersionId) (now : Nat)
  | unpublish (principal : UserId) (id : ListingId)
  | withdrawListings (assetId : AssetId)

def run (db : Database) : Action → Txn String Database
  | .createDraft principal owned id offerId payload =>
    createDraft alipayMaxTotalAmount db principal owned id offerId payload
  | .updateDraft principal id offerId payload =>
    updateDraft alipayMaxTotalAmount db principal id offerId payload
  | .publish principal id publishable versionId now =>
    publish db principal id publishable versionId now
  | .unpublish principal id => unpublish db principal id
  | .withdrawListings assetId => .ok (withdrawListings db assetId)

def step (db : Database) (a : Action) : Option Database :=
  (run alipayMaxTotalAmount db a).toOption

end Service

theorem toList_digit {d : Nat} (h : d < 10) : (Nat.repr d).toList = [Nat.digitChar d] := by
  rw [Nat.toList_repr, Nat.toDigits_of_lt_base h]

theorem priceText_inj {a b : Nat} (h : priceText a = priceText b) : a = b := by
  have hchars : (Nat.repr (a / 100)).toList ++ ['.', Nat.digitChar (a % 100 / 10),
      Nat.digitChar (a % 10)] = (Nat.repr (b / 100)).toList ++
        ['.', Nat.digitChar (b % 100 / 10), Nat.digitChar (b % 10)] := by
    have ha := toList_digit (show a % 100 / 10 < 10 by omega)
    have ha' := toList_digit (show a % 10 < 10 by omega)
    have hb := toList_digit (show b % 100 / 10 < 10 by omega)
    have hb' := toList_digit (show b % 10 < 10 by omega)
    simpa [priceText, ha, ha', hb, hb'] using congrArg String.toList h
  obtain ⟨hwhole, hfraction⟩ := List.append_inj' hchars rfl
  have hdigit : ∀ c d : Nat, c < 10 → d < 10 → Nat.digitChar c = Nat.digitChar d → c = d := by
    intro c d hc hd hcd
    have hfin : ∀ c d : Fin 10, Nat.digitChar c = Nat.digitChar d → c = d := by decide
    exact congrArg Fin.val (hfin ⟨c, hc⟩ ⟨d, hd⟩ hcd)
  simp only [List.cons.injEq, true_and, and_true] at hfraction
  have htens := hdigit _ _ (by omega) (by omega) hfraction.1
  have hunits := hdigit _ _ (by omega) (by omega) hfraction.2
  have hdigits : Nat.toDigits 10 (a / 100) = Nat.toDigits 10 (b / 100) := by
    rw [← Nat.toList_repr, ← Nat.toList_repr]
    exact hwhole
  have hhundreds : a / 100 = b / 100 := by
    simpa using congrArg (Nat.ofDigitChars 10 · 0) hdigits
  omega

end FractalStudio.Marketplace
