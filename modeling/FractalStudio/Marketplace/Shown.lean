import FractalStudio.Lib.Transition
import FractalStudio.Marketplace.Listings

/-!
# What a buyer is shown is what is charged

The invariant of the listings. An operation edits one listing and its offers and versions, so the
invariant is that of one listing over its own offers and versions.
-/
namespace FractalStudio.Marketplace

open Transition Txn

structure Sound (id : ListingId) (l : Listing) (offers : List (OfferId × LicenceOffer))
    (versions : List (VersionId × ListingVersion)) : Prop where
  publishedAt : l.status = .published ↔ l.publishedAt.isSome = true
  current : l.status = .published ↔ l.currentPublishedVersionId.isSome = true
  numbers : ∃ n, versions.map (fun x => x.2.version) = List.range' 1 n
  offer : ∃ x, active offers = [x]
  /-- The snapshot of the current version is the one that would be taken of the listing now. -/
  shown : ∀ versionId, l.currentPublishedVersionId = some versionId →
    ∃ v offer mediaType, (versionId, v) ∈ versions ∧ active offers = [offer] ∧
      v.snapshot = snapshot (recordOf id l offer) mediaType

/-- Every listing is sound against its offers. -/
structure Inv (db : Database) : Prop where
  sound : ∀ id l, db.listings.find? id = some l → Sound id l (db.offersOf id) (db.versionsOf id)
  /-- Offers and versions refer to a listing. -/
  referenced : ∀ id, db.listings.find? id = none → db.offersOf id = [] ∧ db.versionsOf id = []

/-- An edit moves the listing that it names. -/
structure Edits (db db' : Database) (id : ListingId) (l l' : Listing) : Prop where
  found : db.listings.find? id = some l
  live : l.status ≠ .archived
  listings : ∀ j, db'.listings.find? j = if j = id then some l' else db.listings.find? j
  others : ∀ j, j ≠ id → db'.offersOf j = db.offersOf j ∧ db'.versionsOf j = db.versionsOf j

variable {offerId : OfferId}

section
variable {db db' : Database} {id : ListingId} {l l' : Listing}

theorem Inv.edit (h : Inv db) (e : Edits db db' id l l')
    (hs : Sound id l' (db'.offersOf id) (db'.versionsOf id)) : Inv db' where
  sound j m hj := by
    rw [e.listings] at hj
    split at hj
    · next heq =>
      obtain rfl := Option.some.inj hj
      rw [heq]
      exact hs
    · next hne =>
      rw [(e.others j hne).1, (e.others j hne).2]
      exact h.sound j m hj
  referenced j hj := by
    rw [e.listings] at hj
    split at hj
    · cases hj
    · next hne =>
      rw [(e.others j hne).1, (e.others j hne).2]
      exact h.referenced j hj

theorem Edits.archived (e : Edits db db' id l l') {j : ListingId} {m : Listing}
    (hj : db.listings.find? j = some m) (hm : m.status = .archived) :
    db'.listings.find? j = some m := by
  rw [e.listings, if_neg]
  · exact hj
  · rintro rfl
    rw [e.found] at hj
    obtain rfl := Option.some.inj hj
    exact e.live hm

theorem findOwned_eq_some {u : UserId} {r : ListingRecord} (h : findOwned db id u = some r) :
    ∃ l offer, db.listings.find? id = some l ∧ l.status ≠ .archived ∧
      active (db.offersOf id) = [offer] ∧ r = recordOf id l offer := by
  obtain ⟨l, hl, hr⟩ := Option.bind_eq_some_iff.mp h
  split at hr
  · next hcond =>
    unfold record at hr
    split at hr
    · next offer hactive =>
      exact ⟨l, offer, hl, hcond.2, hactive, (Option.some.inj hr).symm⟩
    · cases hr
  · cases hr

variable {versionId : VersionId}

theorem mem_versionsOf {v : ListingVersion} :
    (versionId, v) ∈ db.versionsOf id ↔ db.versions.find? versionId = some v ∧ v.listingId = id := by
  rw [Database.versionsOf, Table.mem_select, decide_eq_true_eq]

theorem mem_offersOf {o : LicenceOffer} :
    (offerId, o) ∈ db.offersOf id ↔
      db.licenceOffers.find? offerId = some o ∧ o.listingId = id := by
  rw [Database.offersOf, Table.mem_select, decide_eq_true_eq]

theorem Sound.offMarket {offers : List (OfferId × LicenceOffer)}
    {versions : List (VersionId × ListingVersion)} (hstatus : l.status ≠ .published)
    (hat : l.publishedAt = none) (hcurrent : l.currentPublishedVersionId = none)
    (hnumbers : ∃ n, versions.map (fun x => x.2.version) = List.range' 1 n)
    (hoffer : ∃ x, active offers = [x]) : Sound id l offers versions where
  publishedAt := by simp [hstatus, hat]
  current := by simp [hstatus, hcurrent]
  numbers := hnumbers
  offer := hoffer
  shown versionId hv := by
    rw [hcurrent] at hv
    cases hv

theorem Sound.withdrawn {offers : List (OfferId × LicenceOffer)}
    {versions : List (VersionId × ListingVersion)} (h : Sound id l offers versions)
    {status : Status} (hstatus : status ≠ .published) :
    Sound id (l.withdrawn status) offers versions :=
  .offMarket hstatus rfl rfl h.numbers h.offer

theorem Inv.withdrawListings (h : Inv db) (assetId : AssetId) :
    Inv (withdrawListings db assetId) where
  sound j m hj := by
    rw [Marketplace.withdrawListings, Table.find?_updateWhere] at hj
    obtain ⟨l, hl, rfl⟩ := Option.map_eq_some_iff.mp hj
    have hsound := h.sound j l hl
    split
    · exact hsound.withdrawn (by decide)
    · exact hsound
  referenced j hj := by
    rw [Marketplace.withdrawListings, Table.find?_updateWhere, Option.map_eq_none_iff] at hj
    exact h.referenced j hj

theorem insertOffer_eq_ok {o : LicenceOffer} (h : insertOffer db offerId o = .ok db') :
    active (db.offersOf o.listingId) = [] ∧ db'.listings = db.listings ∧
      db'.versions = db.versions ∧
      ∀ j, db'.offersOf j = db.offersOf j ++ if o.listingId = j then [(offerId, o)] else [] := by
  unfold insertOffer at h
  split at h
  · next hnone =>
    rw [List.isEmpty_iff] at hnone
    cases hins : db.licenceOffers.insert? offerId o with
    | none =>
      rw [hins] at h
      cases h
    | some offers =>
      rw [hins] at h
      obtain rfl := Except.ok.inj h
      refine ⟨hnone, rfl, rfl, fun j => ?_⟩
      unfold Database.offersOf
      rw [Table.select_insert hins]
      simp
  · cases h

theorem offersOf_deactivateOffers (j : ListingId) :
    (deactivateOffers db id).offersOf j = (db.offersOf j).map fun x =>
      (x.1, if x.2.listingId = id && x.2.isActive then x.2.deactivated else x.2) :=
  Table.select_updateWhere db.licenceOffers (p := fun _ o => o.listingId = j)
    (q := fun _ o => o.listingId = id && o.isActive) (f := fun _ o => o.deactivated) fun _ _ => rfl

theorem offersOf_deactivateOffers_ne {j : ListingId} (hj : j ≠ id) :
    (deactivateOffers db id).offersOf j = db.offersOf j := by
  rw [offersOf_deactivateOffers]
  conv_rhs => rw [← List.map_id (db.offersOf j)]
  apply List.map_congr_left
  rintro ⟨k, o⟩ hmem
  have hne : o.listingId ≠ id := by
    rw [(mem_offersOf.mp hmem).2]
    exact hj
  simp [hne]

theorem replaceOffer_eq_ok {licence : Option Licence}
    (h : replaceOffer db id offerId licence = .ok db')
    (hoffer : ∃ x, active (db.offersOf id) = [x]) :
    db'.listings = db.listings ∧ db'.versions = db.versions ∧
      (∃ x, active (db'.offersOf id) = [x]) ∧ ∀ j, j ≠ id → db'.offersOf j = db.offersOf j := by
  cases licence with
  | none =>
    obtain rfl := Except.ok.inj h
    exact ⟨rfl, rfl, hoffer, fun _ _ => rfl⟩
  | some licence =>
    obtain ⟨hnone, hlistings, hversions, hoffers⟩ := insertOffer_eq_ok h
    refine ⟨hlistings, hversions, ⟨(offerId, licence.offer id), ?_⟩, fun j hj => ?_⟩
    · rw [hoffers, active, List.filter_append]
      unfold active at hnone
      rw [show (licence.offer id).listingId = id from rfl] at hnone ⊢
      rw [hnone, if_pos rfl]
      rfl
    · rw [hoffers, if_neg (fun heq => hj heq.symm), List.append_nil]
      exact offersOf_deactivateOffers_ne hj

/-! ## The operations -/

theorem Inv.createDraft {alipayMaxTotalAmount : Nat} (h : Inv db) {principal : UserId}
    {owned : Bool} {payload : ListingCreateInput}
    (hs : createDraft alipayMaxTotalAmount db principal owned id offerId payload = .ok db') :
    Inv db' ∧ ∀ j m, db.listings.find? j = some m → db'.listings.find? j = some m := by
  unfold Marketplace.createDraft insertDraft insertListing at hs
  simp only [bind_commits, validatePrice, require_eq_ok, orFail_eq_ok] at hs
  obtain ⟨-, -, -, -, terms, -, mid, ⟨-, -, -, -, listings, hins, hmid⟩, last, hoffer, -, -, hlast⟩ :=
    hs
  obtain rfl := Except.ok.inj hmid
  obtain rfl := Except.ok.inj hlast
  obtain ⟨-, hlistings, hversions, hoffers⟩ := insertOffer_eq_ok hoffer
  have hfind := Table.find?_insert hins
  obtain ⟨hnew, -⟩ := Table.insert?_eq_some hins
  obtain ⟨hnoOffers, hnoVersions⟩ := h.referenced id hnew
  have hkept : ∀ j, j ≠ id → last.offersOf j = db.offersOf j ∧
      last.versionsOf j = db.versionsOf j := by
    intro j hj
    constructor
    · rw [hoffers, if_neg (fun heq => hj heq.symm), List.append_nil]
      rfl
    · unfold Database.versionsOf
      rw [hversions]
  refine ⟨⟨fun j m hj => ?_, fun j hj => ?_⟩, fun j m hj => ?_⟩
  · rw [hlistings, hfind] at hj
    split at hj
    · next heq =>
      subst heq
      obtain rfl := Option.some.inj hj
      have hversionsOf : last.versionsOf j = [] := by
        unfold Database.versionsOf
        rw [hversions]
        exact hnoVersions
      have hofferOf : last.offersOf j = [(offerId, Licence.offer
          ⟨payload.code, payload.termsVersion, terms⟩ j)] := by
        rw [hoffers]
        show db.offersOf j ++ _ = _
        rw [hnoOffers, List.nil_append]
        exact if_pos rfl
      rw [hversionsOf, hofferOf]
      exact .offMarket (by simp) rfl rfl ⟨0, rfl⟩ ⟨_, rfl⟩
    · next hne =>
      rw [(hkept j hne).1, (hkept j hne).2]
      exact h.sound j m hj
  · rw [hlistings, hfind] at hj
    split at hj
    · cases hj
    · next hne =>
      rw [(hkept j hne).1, (hkept j hne).2]
      exact h.referenced j hj
  · rw [hlistings]
    exact Table.find?_of_insert hins hj

variable {offer : OfferId × LicenceOffer}

theorem Inv.renamePublished (h : Inv db) {title : String} (hl : db.listings.find? id = some l)
    (hstatus : l.status = .published) (hoffer : active (db.offersOf id) = [offer]) :
    ∃ l', Edits db (renamePublished db (recordOf id l offer) title) id l l' ∧
      Inv (renamePublished db (recordOf id l offer) title) := by
  have hsound := h.sound id l hl
  obtain ⟨versionId, hcurrent⟩ := Option.isSome_iff_exists.mp (hsound.current.mp hstatus)
  obtain ⟨v, shownOffer, mediaType, hv, hshownOffer, hsnapshot⟩ := hsound.shown versionId hcurrent
  obtain rfl : shownOffer = offer := by
    rw [hoffer] at hshownOffer
    exact (List.cons.inj hshownOffer).1.symm
  have hversions : ∀ j,
      (Marketplace.renamePublished db (recordOf id l shownOffer) title).versionsOf j =
      (db.versionsOf j).map fun x =>
        (x.1, if some x.1 = l.currentPublishedVersionId then x.2.retitled title else x.2) := by
    intro j
    have hselect := Table.select_updateWhere db.versions (p := fun _ w => w.listingId = j)
      (q := fun k _ => some k = l.currentPublishedVersionId)
      (f := fun _ w => w.retitled title) fun _ _ => rfl
    simp only [decide_eq_true_eq] at hselect
    exact hselect
  have hedits : Edits db (Marketplace.renamePublished db (recordOf id l shownOffer) title) id l
      { l with title := title } := by
    refine ⟨hl, by rw [hstatus]; decide, fun j => ?_, fun j hj => ⟨rfl, ?_⟩⟩
    · unfold Marketplace.renamePublished
      rw [Table.find?_updateWhere]
      by_cases hj : j = id
      · rw [hj, hl, if_pos rfl]
        simp [recordOf, hstatus]
      · rw [if_neg hj]
        cases db.listings.find? j with
        | none => rfl
        | some m => simp [recordOf, hj]
    · rw [hversions]
      conv_rhs => rw [← List.map_id (db.versionsOf j)]
      apply List.map_congr_left
      rintro ⟨k, w⟩ hmem
      have hne : some k ≠ l.currentPublishedVersionId := by
        rw [hcurrent]
        intro heq
        obtain rfl := Option.some.inj heq
        obtain ⟨hw, hwj⟩ := mem_versionsOf.mp hmem
        obtain ⟨hv, hvid⟩ := mem_versionsOf.mp hv
        rw [hw] at hv
        obtain rfl := Option.some.inj hv
        exact hj (hwj.symm.trans hvid)
      rw [if_neg hne]
      rfl
  refine ⟨_, hedits, h.edit hedits ?_⟩
  refine ⟨hsound.publishedAt, hsound.current, ?_, hsound.offer, fun versionId' hcurrent' => ?_⟩
  · rw [hversions, List.map_map]
    obtain ⟨n, hn⟩ := hsound.numbers
    refine ⟨n, Eq.trans (List.map_congr_left fun x _ => ?_) hn⟩
    show (if some x.1 = l.currentPublishedVersionId then x.2.retitled title else x.2).version = _
    split <;> rfl
  · have hid : versionId = versionId' := Option.some.inj (hcurrent.symm.trans hcurrent')
    subst hid
    refine ⟨v.retitled title, shownOffer, mediaType, ?_, hoffer, ?_⟩
    · rw [hversions]
      exact List.mem_map.mpr ⟨(versionId, v), hv, by rw [hcurrent, if_pos rfl]⟩
    · rw [ListingVersion.retitled, hsnapshot]
      rfl

theorem Inv.editDraft (h : Inv db) {payload : ListingUpdateInput} {licence : Option Licence}
    (hl : db.listings.find? id = some l) (hlive : l.status ≠ .archived)
    (hs : editDraft db (recordOf id l offer) offerId payload licence = .ok db') :
    ∃ l', Edits db db' id l l' ∧ Inv db' := by
  unfold Marketplace.editDraft at hs
  simp only [bind_commits, require_eq_ok] at hs
  obtain ⟨-, -, -, -, hreplace⟩ := hs
  have hsound := h.sound id l hl
  obtain ⟨hlistings, hversions, hoffer, hothers⟩ := replaceOffer_eq_ok hreplace hsound.offer
  have hversionsOf : ∀ j, db'.versionsOf j = db.versionsOf j := by
    intro j
    unfold Database.versionsOf
    rw [hversions]
  have hedits : Edits db db' id l
      (l.edited payload.title payload.description payload.tags payload.price) := by
    refine ⟨hl, hlive, fun j => ?_, fun j hj => ⟨hothers j hj, hversionsOf j⟩⟩
    rw [hlistings]
    show (db.listings.modify id _).find? j = _
    rw [Table.find?_modify]
    by_cases hj : j = id
    · rw [if_pos hj, if_pos hj, hj, hl]
      rfl
    · rw [if_neg hj, if_neg hj]
  refine ⟨_, hedits, h.edit hedits ?_⟩
  rw [hversionsOf]
  exact .offMarket (by simp [Listing.edited]) rfl rfl hsound.numbers hoffer

theorem foldr_max_range' (n : Nat) : (List.range' 1 n).foldr max 0 = n := by
  induction n with
  | zero => rfl
  | succ n ih =>
    have hfold : ∀ (l : List Nat) (a : Nat), l.foldr max a = max (l.foldr max 0) a := by
      intro l a
      induction l with
      | nil => simp
      | cons x l ih => rw [List.foldr_cons, List.foldr_cons, ih, max_assoc]
    rw [List.range'_concat, List.foldr_append, hfold, ih]
    simp
    omega

theorem Inv.publishVersion (h : Inv db) {mediaType : String} {now : Nat}
    (hl : db.listings.find? id = some l) (hstatus : l.status = .draft)
    (hoffer : active (db.offersOf id) = [offer])
    (hs : publishVersion db (recordOf id l offer) (snapshot (recordOf id l offer) mediaType)
      versionId now = .ok db') :
    ∃ l', Edits db db' id l l' ∧ Inv db' := by
  unfold Marketplace.publishVersion at hs
  simp only [bind_commits, orFail_eq_ok] at hs
  obtain ⟨versions, hins, hdb⟩ := hs
  have hdb := Except.ok.inj hdb
  have hsound := h.sound id l hl
  have hoffers : ∀ j, db'.offersOf j = db.offersOf j := by
    intro j
    rw [← hdb]
    rfl
  have hversions : ∀ j, db'.versionsOf j = db.versionsOf j ++ if decide (id = j) then
      [(versionId, ⟨id, latestVersion db id + 1, snapshot (recordOf id l offer) mediaType, now⟩)]
      else [] := by
    intro j
    rw [← hdb]
    exact Table.select_insert hins fun _ v => v.listingId = j
  have hedits : Edits db db' id l { l with
      status := .published
      publishedAt := some now
      currentPublishedVersionId := some versionId } := by
    refine ⟨hl, by rw [hstatus]; decide, fun j => ?_, fun j hj => ⟨hoffers j, ?_⟩⟩
    · rw [← hdb]
      show (db.listings.updateWhere _ _).find? j = _
      rw [Table.find?_updateWhere]
      by_cases hj : j = id
      · rw [hj, hl, if_pos rfl]
        simp [recordOf, hstatus]
      · rw [if_neg hj]
        cases db.listings.find? j with
        | none => rfl
        | some m => simp [recordOf, hj]
    · refine (hversions j).trans ?_
      have hne : ¬ id = j := fun heq => hj heq.symm
      simp [hne]
  refine ⟨_, hedits, h.edit hedits ?_⟩
  have hnew : db'.versionsOf id = db.versionsOf id ++
      [(versionId, ⟨id, latestVersion db id + 1, snapshot (recordOf id l offer) mediaType, now⟩)] := by
    rw [hversions]
    simp
  obtain ⟨n, hn⟩ := hsound.numbers
  refine ⟨by simp, by simp, ⟨n + 1, ?_⟩, ⟨offer, (congrArg active (hoffers id)).trans hoffer⟩,
    fun versionId' hcurrent => ?_⟩
  · rw [hnew, List.map_append, hn, List.range'_concat, latestVersion, hn, foldr_max_range']
    simp [Nat.add_comm]
  · obtain rfl := Option.some.inj hcurrent
    refine ⟨⟨id, latestVersion db id + 1, snapshot (recordOf id l offer) mediaType, now⟩, offer,
      mediaType, ?_, (congrArg active (hoffers id)).trans hoffer, rfl⟩
    rw [hnew]
    exact List.mem_append_right _ List.mem_cons_self

/-! ## One operation -/

variable {alipayMaxTotalAmount : Nat} {principal : UserId}

theorem Inv.updateDraft (h : Inv db) {payload : ListingUpdateInput}
    (hs : updateDraft alipayMaxTotalAmount db principal id offerId payload = .ok db') :
    ∃ l l', Edits db db' id l l' ∧ Inv db' := by
  unfold Marketplace.updateDraft at hs
  simp only [bind_commits, require_eq_ok, orFail_eq_ok] at hs
  obtain ⟨-, -, licence, -, current, hcurrent, hs⟩ := hs
  obtain ⟨l, offer, hl, hlive, hoffer, rfl⟩ := findOwned_eq_some hcurrent
  split at hs
  · next hstatus =>
    unfold renameOnly at hs
    split at hs
    · next title =>
      obtain rfl := Except.ok.inj hs
      exact ⟨l, h.renamePublished hl hstatus hoffer⟩
    · cases hs
  split at hs
  · exact ⟨l, h.editDraft hl hlive hs⟩
  · cases hs

theorem Inv.publish (h : Inv db) {publishable : Option String} {now : Nat}
    (hs : publish db principal id publishable versionId now = .ok db') :
    ∃ l l', Edits db db' id l l' ∧ Inv db' := by
  unfold Marketplace.publish at hs
  simp only [bind_commits, require_eq_ok, orFail_eq_ok, decide_eq_true_eq] at hs
  obtain ⟨current, hcurrent, -, hdraft, mediaType, -, hs⟩ := hs
  obtain ⟨l, offer, hl, -, hoffer, rfl⟩ := findOwned_eq_some hcurrent
  exact ⟨l, h.publishVersion hl hdraft hoffer hs⟩

theorem Inv.unpublish (h : Inv db) (hs : unpublish db principal id = .ok db') :
    ∃ l l', Edits db db' id l l' ∧ Inv db' := by
  unfold Marketplace.unpublish at hs
  simp only [bind_commits, require_eq_ok, orFail_eq_ok, decide_eq_true_eq] at hs
  obtain ⟨current, hcurrent, -, hpublished, hdb⟩ := hs
  obtain ⟨l, offer, hl, hlive, -, rfl⟩ := findOwned_eq_some hcurrent
  have hdb := Except.ok.inj hdb
  have hedits : Edits db db' id l (l.withdrawn .unpublished) := by
    refine ⟨hl, hlive, fun j => ?_, fun j _ => by rw [← hdb]; exact ⟨rfl, rfl⟩⟩
    rw [← hdb]
    show (db.listings.updateWhere _ _).find? j = _
    rw [Table.find?_updateWhere]
    by_cases hj : j = id
    · rw [hj, hl, if_pos rfl, Option.map_some, if_pos]
      simpa [recordOf] using hpublished
    · rw [if_neg hj]
      cases db.listings.find? j with
      | none => rfl
      | some m => simp [hj]
  refine ⟨l, _, hedits, h.edit hedits ?_⟩
  rw [← hdb]
  exact (h.sound id l hl).withdrawn (by decide)

/-- Every step keeps the invariant and leaves archived listings as they are. -/
theorem Inv.step {a : Action} (h : Inv db) (hs : step alipayMaxTotalAmount db a = some db') :
    Inv db' ∧ ∀ j m, db.listings.find? j = some m → m.status = .archived →
      db'.listings.find? j = some m := by
  have hrun : run alipayMaxTotalAmount db a = .ok db' := by
    unfold Marketplace.step at hs
    cases hr : run alipayMaxTotalAmount db a with
    | ok t =>
      rw [hr] at hs
      exact congrArg Except.ok (Option.some.inj hs)
    | error e =>
      rw [hr] at hs
      cases hs
  cases a with
  | createDraft principal owned id offerId payload =>
    obtain ⟨hinv, hkept⟩ := h.createDraft hrun
    exact ⟨hinv, fun j m hj _ => hkept j m hj⟩
  | updateDraft principal id offerId payload =>
    obtain ⟨l, l', hedits, hinv⟩ := h.updateDraft hrun
    exact ⟨hinv, fun _ _ => hedits.archived⟩
  | publish principal id publishable versionId now =>
    obtain ⟨l, l', hedits, hinv⟩ := h.publish hrun
    exact ⟨hinv, fun _ _ => hedits.archived⟩
  | unpublish principal id =>
    obtain ⟨l, l', hedits, hinv⟩ := h.unpublish hrun
    exact ⟨hinv, fun _ _ => hedits.archived⟩
  | withdrawListings assetId =>
    obtain rfl := Except.ok.inj hrun
    refine ⟨h.withdrawListings assetId, fun j m hj hm => ?_⟩
    rw [Marketplace.withdrawListings, Table.find?_updateWhere, hj, Option.map_some, if_neg]
    simp [hm]

end

/-- There is no listing yet. -/
def IsInitial (db : Database) : Prop :=
  db.listings = Table.empty ∧ db.licenceOffers = Table.empty ∧ db.versions = Table.empty

/-- There are no offers at first. -/
theorem Inv.init {db : Database} (h : IsInitial db) : Inv db := by
  obtain ⟨hlistings, hoffers, hversions⟩ := h
  refine ⟨fun id l hl => ?_, fun id _ => ⟨?_, ?_⟩⟩
  · rw [hlistings] at hl
    cases hl
  · unfold Database.offersOf
    rw [hoffers]
    rfl
  · unfold Database.versionsOf
    rw [hversions]
    rfl

/-- The snapshot that a buyer was shown agrees with the rows that a checkout reads. -/
structure Agrees (l : Listing) (licence : LicenceOffer) (o : PublishedOfferSnapshot) : Prop where
  title : o.listingSnapshot.title = l.title
  description : o.listingSnapshot.description = l.description
  tags : o.listingSnapshot.tags = arrayAgg l.tags
  assetId : o.listingSnapshot.assetId = o.assetId
  currency : o.listingSnapshot.currency = o.currency
  /-- The price shown is the text of the price charged and of no other. -/
  price : ∀ fen, o.listingSnapshot.price = priceText fen ↔ fen = o.price
  licenceOffer : o.listingSnapshot.licenceOffer =
    ⟨o.licenceOfferId, licence.code, licence.termsVersion, o.licenceSnapshot⟩

/-- A published offer is what its listing says. -/
theorem Inv.agrees {db : Database} (h : Inv db) {id : ListingId} {o : PublishedOfferSnapshot}
    (ho : findPublishedOffer db id offerId = some o) :
    ∃ l licence, db.listings.find? id = some l ∧ l.status = .published ∧ o.price = l.price ∧
      o.assetId = l.assetId ∧ o.currency = l.currency ∧
      db.licenceOffers.find? offerId = some licence ∧ licence.listingId = id ∧
      licence.isActive = true ∧ o.licenceSnapshot = licence.terms ∧ Agrees l licence o := by
  unfold findPublishedOffer at ho
  simp only [Option.bind_eq_bind, Option.bind_eq_some_iff] at ho
  obtain ⟨l, hl, versionId, hcurrent, v, hv, licence, hlicence, ho⟩ := ho
  split at ho
  · next hcond =>
    obtain ⟨hpublished, hlisting, hactive⟩ := hcond
    obtain rfl := Option.some.inj ho
    obtain ⟨w, offer, mediaType, hw, hoffer, hsnapshot⟩ := (h.sound id l hl).shown versionId hcurrent
    obtain rfl := Option.some.inj (hv.symm.trans (mem_versionsOf.mp hw).1)
    have hmem : (offerId, licence) ∈ active (db.offersOf id) :=
      List.mem_filter.mpr ⟨mem_offersOf.mpr ⟨hlicence, hlisting⟩, hactive⟩
    rw [hoffer, List.mem_singleton] at hmem
    rw [← hmem] at hsnapshot
    refine ⟨l, licence, hl, hpublished, rfl, rfl, rfl, hlicence, hlisting, hactive, rfl, ?_⟩
    have hprice : v.snapshot.price = priceText l.price := congrArg Snapshot.price hsnapshot
    refine ⟨congrArg Snapshot.title hsnapshot, congrArg Snapshot.description hsnapshot,
      congrArg Snapshot.tags hsnapshot, congrArg Snapshot.assetId hsnapshot,
      congrArg Snapshot.currency hsnapshot, fun fen => ⟨fun hshown => ?_, fun heq => ?_⟩,
      congrArg Snapshot.licenceOffer hsnapshot⟩
    · exact priceText_inj (hshown.symm.trans hprice)
    · rw [heq]
      exact hprice
  · cases ho

theorem Inv.offered {db : Database} (h : Inv db) {id : ListingId} {l : Listing}
    (hl : db.listings.find? id = some l) (hpublished : l.status = .published) :
    ∃ offerId o, findPublishedOffer db id offerId = some o := by
  have hsound := h.sound id l hl
  obtain ⟨versionId, hcurrent⟩ := Option.isSome_iff_exists.mp (hsound.current.mp hpublished)
  obtain ⟨v, ⟨offerId, licence⟩, mediaType, hv, hoffer, -⟩ := hsound.shown versionId hcurrent
  have hmem : (offerId, licence) ∈ active (db.offersOf id) := by
    rw [hoffer]
    exact List.mem_cons_self
  obtain ⟨hlicence, hactive⟩ := List.mem_filter.mp hmem
  obtain ⟨hfind, hlisting⟩ := mem_offersOf.mp hlicence
  refine ⟨offerId, ⟨id, versionId, offerId, l.assetId, l.creatorId, l.price, l.currency, v.snapshot,
    licence.terms⟩, ?_⟩
  simp only [findPublishedOffer, Option.bind_eq_bind, hl, hcurrent, (mem_versionsOf.mp hv).1, hfind,
    Option.bind_some]
  exact if_pos ⟨hpublished, hlisting, hactive⟩

/-- In every reachable state the rows of a listing fit its status, and checkout finds an offer for
exactly the published listings, with what the current version shows. -/
theorem shown_is_charged {alipayMaxTotalAmount : Nat} {db : Database}
    (h : Reach IsInitial (step alipayMaxTotalAmount) Free db) :
    (∀ id l, db.listings.find? id = some l →
      (l.status = .published ↔ l.publishedAt.isSome = true) ∧
      (l.status = .published ↔ l.currentPublishedVersionId.isSome = true) ∧
      (∃ n, (db.versionsOf id).map (fun x => x.2.version) = List.range' 1 n) ∧
      (∃ offer, active (db.offersOf id) = [offer]) ∧
      (l.status = .published → ∃ offerId o, findPublishedOffer db id offerId = some o) ∧
      (l.status = .archived → ∀ db', Later (step alipayMaxTotalAmount) Free db db' →
        db'.listings.find? id = some l)) ∧
    ∀ id offerId o, findPublishedOffer db id offerId = some o →
      ∃ l licence, db.listings.find? id = some l ∧ l.status = .published ∧ o.price = l.price ∧
        o.assetId = l.assetId ∧ o.currency = l.currency ∧
        db.licenceOffers.find? offerId = some licence ∧ licence.listingId = id ∧
        licence.isActive = true ∧ o.licenceSnapshot = licence.terms ∧ Agrees l licence o := by
  have hall : ∀ {t}, Reach IsInitial (step alipayMaxTotalAmount) Free t → Inv t := fun ht =>
    ht.invariant (fun _ => Inv.init) fun _ _ _ hinv _ hs => (hinv.step hs).1
  have hinv := hall h
  refine ⟨fun id l hl => ?_, fun id offerId o => hinv.agrees⟩
  have hsound := hinv.sound id l hl
  refine ⟨hsound.publishedAt, hsound.current, hsound.numbers, hsound.offer, hinv.offered hl, ?_⟩
  intro harchived db' hlater
  refine hlater.keeps (P := fun t => t.listings.find? id = some l) ?_ h hl
  intro t a t' ht hkeep _ hs
  exact ((hall ht).step hs).2 id l hkeep harchived

def noListings : Database := ⟨Table.empty, Table.empty, Table.empty⟩

theorem isInitial_noListings : IsInitial noListings := ⟨rfl, rfl, rfl⟩

/-- A listing is drafted, published and renamed. -/
def retitled : List Action :=
  [.createDraft 1 true 10 20 ⟨5, "Julia", "A set.", [], 1250, "personal", "v1"⟩,
    .publish 1 10 (some "image") 30 0,
    .updateDraft 1 10 21 ⟨some "Dendrite", none, none, none, none⟩]

theorem retitled_runs : (exec (step 10000) noListings retitled).isSome = true := by
  decide +kernel

def retitledEnd : Database := (exec (step 10000) noListings retitled).get retitled_runs

/-- The title changed after the offer was made. -/
theorem shown_is_charged_retitled : ∃ l licence o,
    findPublishedOffer retitledEnd 10 20 = some o ∧ o.price = 1250 ∧
      o.listingSnapshot.title = "Dendrite" ∧ Agrees l licence o := by
  have hreach : Reach IsInitial (step 10000) Free retitledEnd :=
    reach_of_exec isInitial_noListings (Option.some_get retitled_runs).symm
  have hfound : (findPublishedOffer retitledEnd 10 20).any (fun o =>
      o.price = 1250 && o.listingSnapshot.title = "Dendrite") = true := by
    decide +kernel
  obtain ⟨o, ho, hshown⟩ := (Option.any_eq_true _ _).mp hfound
  obtain ⟨l, licence, -, -, -, -, -, -, -, -, -, hagrees⟩ :=
    (shown_is_charged hreach).2 10 20 o ho
  rw [Bool.and_eq_true, decide_eq_true_eq, decide_eq_true_eq] at hshown
  exact ⟨l, licence, o, ho, hshown.1, hshown.2, hagrees⟩

end FractalStudio.Marketplace
