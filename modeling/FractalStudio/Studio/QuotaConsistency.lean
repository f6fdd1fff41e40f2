import FractalStudio.Studio.Effects

/-!
# A render job, its reservation and its asset agree

In every committed state the reservation of a job is held exactly while the job has not ended, an
asset is as far as its job, and nobody holds more units than the quota.
-/
namespace FractalStudio.Studio

open Transition

/-- The statuses that a job can have beside an asset of the status. -/
def AssetStatus.fits : AssetStatus → JobStatus → Bool
  | .processing, .ingesting | .processing, .failed | .ready, .completed | .failed, .failed
  | .deleted, .completed | .deleted, .failed => true
  | _, _ => false

/-- The reservation of a job is its owner's, and held exactly while the job is open. -/
def ReservationFits (row : RenderJob) (res : Reservation) : Prop :=
  res.userId = row.ownerId ∧ (res.status = .reserved ↔ row.status.isTerminal = false)

/-- What the tables say about one job. -/
structure SoundJob (db : Db) (j : JobId) : Prop where
  reserved : ∀ row, db.jobs.find? j = some row →
    ∃ res, db.reservations.find? j = some res ∧ ReservationFits row res
  progress : ∀ row, db.jobs.find? j = some row → row.progressPercent ≤ 100
  asset : ∀ a, db.assets.find? j = some a →
    ∃ row, db.jobs.find? j = some row ∧ a.status.fits row.status = true
  files : ∀ a, db.assets.find? j = some a → ∀ p ∈ a.files, (j, p) ∈ db.recorded
  completed : ∀ row, db.jobs.find? j = some row → row.status = .completed →
    (∃ a, db.assets.find? j = some a) ∧ ∀ p, (j, p) ∈ db.recorded

/-- Jobs, reservations and assets fit together. -/
structure Sound (cfg : Settings) (db : Db) : Prop where
  job : ∀ j, SoundJob db j
  units : ∀ user, reservedUnits db user ≤ cfg.renderQuotaMaxActive

/-- A later row of the job: its progress is no smaller, and an end is final. -/
def RenderJob.Precedes (row row' : RenderJob) : Prop :=
  row.progressPercent ≤ row'.progressPercent ∧
    (row.status.isTerminal = true → row'.status = row.status)

/-- What one write to the rows of `j` keeps. -/
structure Kept (j : JobId) (db db' : Db) : Prop where
  sound : SoundJob db' j
  job : ∀ row, db.jobs.find? j = some row →
    ∃ row', db'.jobs.find? j = some row' ∧ row.Precedes row'
  asset : (∃ a, db.assets.find? j = some a) → ∃ a, db'.assets.find? j = some a

section Job
variable {db db' : Db} {j : JobId} {row : RenderJob}

theorem RenderJob.Precedes.refl (row : RenderJob) : row.Precedes row := ⟨le_refl _, fun _ => rfl⟩

theorem RenderJob.Precedes.trans {r₁ r₂ r₃ : RenderJob} (h₁ : r₁.Precedes r₂)
    (h₂ : r₂.Precedes r₃) : r₁.Precedes r₃ := by
  refine ⟨h₁.1.trans h₂.1, fun hend => ?_⟩
  have hsame := h₁.2 hend
  rw [h₂.2 (by rw [hsame, hend]), hsame]

theorem Kept.refl (hs : SoundJob db j) : Kept j db db where
  sound := hs
  job row hrow := ⟨row, hrow, .refl row⟩
  asset := id

theorem Kept.trans {db₁ db₂ : Db} (h₁ : Kept j db db₁) (h₂ : Kept j db₁ db₂) : Kept j db db₂ where
  sound := h₂.sound
  job row hrow := by
    obtain ⟨r₁, hr₁, hle₁⟩ := h₁.job row hrow
    obtain ⟨r₂, hr₂, hle₂⟩ := h₂.job r₁ hr₁
    exact ⟨r₂, hr₂, hle₁.trans hle₂⟩
  asset := h₂.asset ∘ h₁.asset

theorem SoundJob.congr (hs : SoundJob db j) (hjobs : db'.jobs.find? j = db.jobs.find? j)
    (hres : db'.reservations.find? j = db.reservations.find? j)
    (hassets : db'.assets.find? j = db.assets.find? j)
    (hrec : ∀ p, (j, p) ∈ db'.recorded ↔ (j, p) ∈ db.recorded) : SoundJob db' j where
  reserved := by simpa only [hjobs, hres] using hs.reserved
  progress := by simpa only [hjobs] using hs.progress
  asset := by simpa only [hjobs, hassets] using hs.asset
  files := by simpa only [hassets, hrec] using hs.files
  completed := by simpa only [hjobs, hassets, hrec] using hs.completed

theorem Kept.ofRow {row' : RenderJob} (hrow : db.jobs.find? j = some row)
    (hrow' : db'.jobs.find? j = some row') (hle : row.Precedes row')
    (hbound : row'.progressPercent ≤ 100)
    (hres : ∃ res, db'.reservations.find? j = some res ∧ ReservationFits row' res)
    (hasset : ∀ a, db'.assets.find? j = some a →
      a.status.fits row'.status = true ∧ ∀ p ∈ a.files, (j, p) ∈ db'.recorded)
    (hdone : row'.status = .completed →
      (∃ a, db'.assets.find? j = some a) ∧ ∀ p, (j, p) ∈ db'.recorded)
    (hkeep : (∃ a, db.assets.find? j = some a) → ∃ a, db'.assets.find? j = some a) :
    Kept j db db' where
  sound := by
    have heq : ∀ r, db'.jobs.find? j = some r → r = row' :=
      fun r hr => Option.some.inj (hr.symm.trans hrow')
    refine ⟨fun r hr => ?_, fun r hr => ?_, fun a ha => ⟨row', hrow', (hasset a ha).1⟩,
      fun a ha => (hasset a ha).2, fun r hr => ?_⟩ <;> obtain rfl := heq r hr
    · exact hres
    · exact hbound
    · exact hdone
  job r hr := by
    obtain rfl := Option.some.inj (hrow.symm.trans hr)
    exact ⟨row', hrow', hle⟩
  asset := hkeep

/-- The statuses before the end and before any asset. -/
def earlyStatuses : List JobStatus := [.queued, .submitting, .running, .cancelRequested]

theorem not_terminal_of_early {status : JobStatus} (h : status ∈ earlyStatuses) :
    status.isTerminal = false := by
  revert h
  cases status <;> decide

theorem fits_early {status : JobStatus} (h : status ∈ JobStatus.computeSucceeded :: earlyStatuses)
    (a : AssetStatus) : a.fits status = false := by
  revert h
  cases status <;> cases a <;> decide

theorem fits_failed {status : JobStatus} (hfits : AssetStatus.processing.fits status = true)
    (hend : status.isTerminal = true) : AssetStatus.failed.fits status = true := by
  revert hfits hend
  cases status <;> decide

theorem fits_deleted {a : AssetStatus} {status : JobStatus} (ha : a = .ready ∨ a = .failed)
    (hfits : a.fits status = true) : AssetStatus.deleted.fits status = true := by
  revert ha hfits
  cases status <;> cases a <;> decide

theorem asset_none_of_status (hs : SoundJob db j) (hrow : db.jobs.find? j = some row)
    (h : row.status ∈ JobStatus.computeSucceeded :: earlyStatuses) : db.assets.find? j = none := by
  cases ha : db.assets.find? j with
  | none => rfl
  | some a =>
    obtain ⟨row', hrow', hfits⟩ := hs.asset a ha
    obtain rfl := Option.some.inj (hrow.symm.trans hrow')
    rw [fits_early h] at hfits
    cases hfits

theorem kept_modifyJob {f : RenderJob → RenderJob} (hs : SoundJob db j)
    (hrow : db.jobs.find? j = some row) (hearly : row.status ∈ earlyStatuses)
    (howner : (f row).ownerId = row.ownerId) (hopen : (f row).status.isTerminal = false)
    (hprogress : row.progressPercent ≤ (f row).progressPercent)
    (hbound : (f row).progressPercent ≤ 100) : Kept j db (setJobs db (db.jobs.modify j f)) := by
  have hnone := asset_none_of_status hs hrow (List.mem_cons_of_mem _ hearly)
  have hstatus := not_terminal_of_early hearly
  refine .ofRow hrow (find?_modifyJob hrow f) ⟨hprogress, fun hend => ?_⟩ hbound ?_
    (fun a ha => nomatch hnone.symm.trans ha) (fun hdone => ?_) id
  · rw [hstatus] at hend
    cases hend
  · obtain ⟨res, hres, huser, hheld⟩ := hs.reserved row hrow
    exact ⟨res, hres, huser.trans howner.symm, by rw [hheld, hstatus, hopen]⟩
  · rw [hdone] at hopen
    cases hopen

theorem find?_reservations_terminate (db : Db) (j : JobId) (status : JobStatus)
    (code : Option String) (res : ReservationStatus) :
    (terminate db j status code res).reservations.find? j = (db.reservations.find? j).map fun r =>
      if r.status = .reserved then { r with status := res } else r := by
  simp [terminate, setReservation, setJobs, Table.find?_updateWhere]

theorem reservationFits_terminate {row' : RenderJob} {res : Reservation}
    {status : ReservationStatus} (hfits : ReservationFits row res)
    (howner : row'.ownerId = row.ownerId) (hend : row'.status.isTerminal = true)
    (hstatus : status ≠ .reserved) :
    ReservationFits row' (if res.status = .reserved then { res with status } else res) := by
  refine ⟨?_, ?_⟩
  · rw [howner, ← hfits.1]
    split <;> rfl
  · split
    · simp [hstatus, hend]
    · next hheld => simp [hheld, hend]

theorem kept_terminate {status : JobStatus} {code : Option String} {res : ReservationStatus}
    (hs : SoundJob db j) (hrow : db.jobs.find? j = some row)
    (hopen : row.status.isTerminal = false) (hend : status.isTerminal = true)
    (hne : status ≠ .completed) (hres : res ≠ .reserved)
    (hfits : ∀ a : AssetStatus, a.fits row.status = true → a.fits status = true) :
    Kept j db (terminate db j status code res) := by
  refine .ofRow hrow (find?_terminate hrow status code res) ⟨le_refl _, fun h => ?_⟩
    (hs.progress row hrow) ?_ (fun a ha => ⟨?_, hs.files a ha⟩) (fun hdone => absurd hdone hne) id
  · rw [hopen] at h
    cases h
  · obtain ⟨held, hheld, hfit⟩ := hs.reserved row hrow
    rw [find?_reservations_terminate, hheld]
    exact ⟨_, rfl, reservationFits_terminate hfit rfl hend hres⟩
  · obtain ⟨r, hr, hfit⟩ := hs.asset a ha
    obtain rfl := Option.some.inj (hrow.symm.trans hr)
    exact hfits a.status hfit

theorem kept_cancelAndRelease (hs : SoundJob db j) (h : cancelAndRelease db j = some db') :
    Kept j db db' := by
  obtain ⟨row, hrow, hmem, rfl⟩ := cancelAndRelease_eq_some h
  refine kept_terminate hs hrow (not_terminal_of_early hmem) rfl (by decide) (by decide) ?_
  intro a hfits
  rw [fits_early (List.mem_cons_of_mem _ hmem)] at hfits
  cases hfits

theorem kept_failAndRelease {code : String} (hs : SoundJob db j)
    (h : failAndRelease db j code = some db') : Kept j db db' := by
  obtain ⟨row, hrow, ⟨hmem, rfl⟩ | ⟨hcancel, rfl⟩⟩ := failAndRelease_eq_some h
  · have hopen : row.status.isTerminal = false := by
      revert hmem
      cases row.status <;> decide
    refine kept_terminate hs hrow hopen rfl (by decide) (by decide) ?_
    intro a hfits
    revert hmem hfits
    cases row.status <;> cases a <;> decide
  · refine kept_terminate hs hrow (by rw [hcancel]; rfl) rfl (by decide) (by decide) ?_
    intro a hfits
    rw [fits_early (by rw [hcancel]; decide)] at hfits
    cases hfits

theorem kept_expireReservation {now : DateTime} (hs : SoundJob db j)
    (h : expireReservation db now j = some db') : Kept j db db' := by
  obtain ⟨row, hrow, ⟨hend, rfl⟩ | ⟨hcancel, rfl⟩ | ⟨hopen, hne, rfl⟩⟩ :=
    expireReservation_eq_some h
  · have hsame : (releaseReservation db j).jobs = db.jobs := rfl
    refine ⟨⟨fun r hr => ?_, hs.progress, hs.asset, hs.files, hs.completed⟩, ?_, id⟩
    · rw [hsame] at hr
      obtain rfl := Option.some.inj (hrow.symm.trans hr)
      obtain ⟨res, hres, hfit⟩ := hs.reserved row hrow
      have hne : ReservationStatus.released ≠ .reserved := by decide
      refine ⟨_, ?_, reservationFits_terminate hfit rfl hend hne⟩
      simp [releaseReservation, setReservation, Table.find?_updateWhere, hres]
    · exact fun r hr => ⟨r, hr, .refl r⟩
  · refine kept_terminate hs hrow (by rw [hcancel]; rfl) rfl (by decide) (by decide) ?_
    intro a hfits
    rw [fits_early (by rw [hcancel]; decide)] at hfits
    cases hfits
  · refine kept_terminate hs hrow hopen rfl (by decide) (by decide) ?_
    intro a hfits
    revert hopen hfits
    cases row.status <;> cases a <;> decide

/-! ### The asset -/

theorem recordFile_spec {a : Asset} (hfiles : ∀ p ∈ a.files, (j, p) ∈ db.recorded)
    (ha : db.assets.find? j = some a) (purpose : FilePurpose) :
    ∃ files, (recordFile db j purpose).assets.find? j = some { a with files } ∧
      (∀ p ∈ files, (j, p) ∈ (recordFile db j purpose).recorded) ∧
      (j, purpose) ∈ (recordFile db j purpose).recorded ∧
      db.recorded ⊆ (recordFile db j purpose).recorded := by
  unfold recordFile
  by_cases hin : purpose ∈ a.files
  · have hany : (db.assets.find? j).any (purpose ∉ ·.files) = false := by simp [ha, hin]
    rw [if_neg (Bool.eq_false_iff.mp hany)]
    exact ⟨a.files, ha, hfiles, hfiles purpose hin, List.Subset.refl _⟩
  · have hany : (db.assets.find? j).any (purpose ∉ ·.files) = true := by simp [ha, hin]
    rw [if_pos hany]
    refine ⟨a.files ++ [purpose], ?_, ?_, ?_, List.subset_append_left _ _⟩
    · rw [Table.find?_modify_self, ha, Option.map_some]
    · intro p hp
      rw [List.mem_append, List.mem_singleton] at hp ⊢
      exact hp.imp (hfiles p) fun h => by rw [h]
    · exact List.mem_append_right _ (List.mem_singleton_self _)

theorem reservations_recordFile (db : Db) (j : JobId) (purpose : FilePurpose) :
    (recordFile db j purpose).reservations = db.reservations := by
  unfold recordFile
  split <;> rfl

theorem Asset.moveStatus_files (status next : AssetStatus) (a : Asset) :
    (a.moveStatus status next).files = a.files := by
  unfold moveStatus
  split <;> rfl

theorem modifyAsset_find? {f : Asset → Asset} {a : Asset} (ha : db.assets.find? j = some a) :
    (setAssets db (db.assets.modify j f)).assets.find? j = some (f a) := by
  rw [setAssets, Table.find?_modify_self, ha, Option.map_some]

theorem finalizeIngestion_spec {a : Asset} (hfiles : ∀ p ∈ a.files, (j, p) ∈ db.recorded)
    (ha : db.assets.find? j = some a) :
    ∃ a', (finalizeIngestion db j).assets.find? j = some a' ∧
      a'.status = (a.moveStatus .processing .ready).status ∧
      (∀ p ∈ a'.files, (j, p) ∈ (finalizeIngestion db j).recorded) ∧
      ∀ p, (j, p) ∈ (finalizeIngestion db j).recorded := by
  obtain ⟨files, ha₁, hfiles₁, hmaster, -⟩ := recordFile_spec hfiles ha .master
  have ha₂ := modifyAsset_find? (f := .moveStatus .processing .ready) ha₁
  have hfiles₂ : ∀ p ∈ (Asset.moveStatus .processing .ready { a with files }).files,
      (j, p) ∈ (completeMaster db j).recorded := by
    rw [Asset.moveStatus_files]
    exact hfiles₁
  obtain ⟨files', ha₃, hfiles₃, hmanifest, hsub⟩ := recordFile_spec hfiles₂ ha₂ .renderManifest
  refine ⟨_, ha₃, ?_, hfiles₃, fun p => ?_⟩
  · unfold Asset.moveStatus
    split <;> rfl
  · cases p with
    | master => exact hsub hmaster
    | renderManifest => exact hmanifest

theorem kept_finalize {a : Asset} (hs : SoundJob db j) (ha : db.assets.find? j = some a)
    (h : completeJob (finalizeIngestion db j) j = some db') : Kept j db db' := by
  obtain ⟨row, hrow₁, hmem, rfl⟩ := completeJob_eq_some h
  have hrow := jobs_finalizeIngestion db j ▸ hrow₁
  obtain ⟨a', ha', hstatus, hfiles, hrec⟩ := finalizeIngestion_spec (hs.files a ha) ha
  have hfits : a.status.fits row.status = true := by
    obtain ⟨r, hr, hfits⟩ := hs.asset a ha
    obtain rfl := Option.some.inj (hrow.symm.trans hr)
    exact hfits
  have hprocessing : a.status = .processing ∧ row.status = .ingesting := by
    revert hmem hfits
    cases row.status <;> cases a.status <;> decide
  have hopen : row.status.isTerminal = false := by rw [hprocessing.2]; rfl
  have hready : a'.status = .ready := by
    rw [hstatus, Asset.moveStatus, if_pos hprocessing.1]
  have hheld : (finalizeIngestion db j).reservations = db.reservations := by
    rw [finalizeIngestion, completeMaster, reservations_recordFile]
    exact reservations_recordFile db j .master
  refine .ofRow hrow (find?_terminate hrow₁ .completed none .released) ⟨le_refl _, fun h => ?_⟩
    (hs.progress row hrow) ?_ (fun b hb => ?_) (fun _ => ⟨⟨a', ha'⟩, hrec⟩) fun _ => ⟨a', ha'⟩
  · rw [hopen] at h
    cases h
  · obtain ⟨res, hres, hfit⟩ := hs.reserved row hrow
    rw [find?_reservations_terminate, hheld, hres]
    exact ⟨_, rfl, reservationFits_terminate hfit rfl rfl (by decide)⟩
  · obtain rfl := Option.some.inj (ha'.symm.trans hb)
    exact ⟨by rw [hready]; rfl, hfiles⟩

theorem kept_ingesting (hs : SoundJob db j) (hrow : db.jobs.find? j = some row)
    (hstatus : row.status = .computeSucceeded)
    (h : setStatus (createOrGetProcessing db j row) j [.computeSucceeded] .ingesting none =
      some db') : Kept j db db' ∧ ∃ a, db'.assets.find? j = some a := by
  have hnone := asset_none_of_status hs hrow (by rw [hstatus]; exact List.mem_cons_self)
  obtain ⟨r, hr, -, rfl⟩ := updateJob_eq_some h
  obtain rfl := Option.some.inj (hrow.symm.trans hr)
  have ha' : (createOrGetProcessing db j row).assets.find? j =
      some ⟨row.ownerId, assetMediaType row.outputKind, .processing, []⟩ := by
    simp [createOrGetProcessing, setAssets, Table.find?_insertIfAbsent, hnone]
  refine ⟨.ofRow hrow (find?_modifyJob hr _) ⟨le_refl _, fun h => ?_⟩ (hs.progress row hrow) ?_
    (fun b hb => ?_) (fun h => by cases h) fun _ => ⟨_, ha'⟩, _, ha'⟩
  · rw [hstatus] at h
    cases h
  · obtain ⟨res, hres, huser, hheld⟩ := hs.reserved row hrow
    exact ⟨res, hres, huser, by rw [hheld, hstatus]; exact Iff.rfl⟩
  · obtain rfl := Option.some.inj (ha'.symm.trans hb)
    exact ⟨rfl, fun p hp => absurd hp List.not_mem_nil⟩

theorem not_alreadyReady (hs : SoundJob db j) (hrow : db.jobs.find? j = some row)
    (hstatus : row.status = .computeSucceeded) :
    ((createOrGetProcessing db j row).assets.find? j).any (·.status = .ready) = false := by
  have hnone := asset_none_of_status hs hrow (by rw [hstatus]; exact List.mem_cons_self)
  simp [createOrGetProcessing, setAssets, Table.find?_insertIfAbsent, hnone]

theorem kept_markIfKnown (hs : SoundJob db j)
    (hend : ∀ row, db.jobs.find? j = some row → row.status.isTerminal = true) (assetKnown : Bool) :
    Kept j db (if assetKnown then markFailed db j else db) := by
  split
  · cases ha : db.assets.find? j with
    | none =>
      have hsame : (markFailed db j).assets.find? j = none := by
        rw [markFailed, setAssets, Table.find?_modify_self, ha, Option.map_none]
      refine ⟨⟨hs.reserved, hs.progress, fun b hb => ?_, fun b hb => ?_, ?_⟩, ?_, ?_⟩
      · cases hsame.symm.trans hb
      · cases hsame.symm.trans hb
      · intro row hrow hdone
        obtain ⟨⟨b, hb⟩, -⟩ := hs.completed row hrow hdone
        cases ha.symm.trans hb
      · exact fun row hrow => ⟨row, hrow, .refl row⟩
      · intro h
        obtain ⟨b, hb⟩ := h
        cases ha.symm.trans hb
    | some a =>
      have ha' := modifyAsset_find? (f := .moveStatus .processing .failed) ha
      refine ⟨⟨hs.reserved, hs.progress, fun b hb => ?_, fun b hb => ?_, ?_⟩, ?_, ?_⟩
      · obtain rfl := Option.some.inj (ha'.symm.trans hb)
        obtain ⟨row, hrow, hfits⟩ := hs.asset a ha
        refine ⟨row, hrow, ?_⟩
        unfold Asset.moveStatus
        split
        · next hprocessing => exact fits_failed (hprocessing ▸ hfits) (hend row hrow)
        · exact hfits
      · obtain rfl := Option.some.inj (ha'.symm.trans hb)
        rw [Asset.moveStatus_files]
        exact hs.files a ha
      · exact fun row hrow hdone => ⟨⟨_, ha'⟩, (hs.completed row hrow hdone).2⟩
      · exact fun row hrow => ⟨row, hrow, .refl row⟩
      · exact fun _ => ⟨_, ha'⟩
  · exact .refl hs

theorem failAndRelease_markIfKnown (db : Db) (j : JobId) (assetKnown : Bool) (code : String) :
    failAndRelease (if assetKnown then markFailed db j else db) j code =
      (failAndRelease db j code).map fun d => if assetKnown then markFailed d j else d := by
  cases assetKnown with
  | false => simp
  | true =>
    have hstatus : jobStatus (markFailed db j) j = jobStatus db j := rfl
    simp only [↓reduceIte, failAndRelease, cancelAndRelease, setStatus, updateJob, hstatus]
    split
    · rfl
    · split <;> rfl

theorem kept_ingestFailed (hs : SoundJob db j) (assetKnown : Bool) {code : String}
    (h : failAndRelease (if assetKnown then markFailed db j else db) j code = some db') :
    Kept j db db' := by
  rw [failAndRelease_markIfKnown] at h
  obtain ⟨db₁, hfail, rfl⟩ := Option.map_eq_some_iff.mp h
  have hkept := kept_failAndRelease hs hfail
  refine hkept.trans (kept_markIfKnown hkept.sound ?_ assetKnown)
  intro r hr
  obtain ⟨row, hrow, ⟨-, rfl⟩ | ⟨-, rfl⟩⟩ := failAndRelease_eq_some hfail <;>
  · rw [find?_terminate hrow] at hr
    obtain rfl := Option.some.inj hr
    rfl

theorem kept_ingestFailedLate (hs : SoundJob db j) (assetKnown : Bool) {code : String}
    (h : failAndRelease (if assetKnown then markFailed db j else db) j code = none) :
    Kept j db (if assetKnown then markFailed db j else db) := by
  rw [failAndRelease_markIfKnown] at h
  exact kept_markIfKnown hs
    (fun _ hrow => terminal_of_failAndRelease_eq_none (Option.map_eq_none_iff.mp h) hrow) assetKnown

theorem kept_softDelete {retained : Bool} (hs : SoundJob db j)
    (h : softDelete db j retained = some db') : Touches j db db' ∧ Kept j db db' := by
  obtain ⟨a, ha, hstatus, rfl⟩ := softDelete_eq_some h
  refine ⟨.modifyAsset j db _, ?_⟩
  have ha' := modifyAsset_find? (f := fun a =>
    { a with status := .deleted, files := if retained then a.files else [] }) ha
  refine ⟨⟨hs.reserved, hs.progress, fun b hb => ?_, fun b hb => ?_, ?_⟩, ?_, fun _ => ⟨_, ha'⟩⟩
  · obtain rfl := Option.some.inj (ha'.symm.trans hb)
    obtain ⟨row, hrow, hfits⟩ := hs.asset a ha
    exact ⟨row, hrow, fits_deleted hstatus hfits⟩
  · obtain rfl := Option.some.inj (ha'.symm.trans hb)
    intro p hp
    cases retained with
    | true => exact hs.files a ha p hp
    | false => exact nomatch hp
  · exact fun row hrow hdone => ⟨⟨_, ha'⟩, (hs.completed row hrow hdone).2⟩
  · exact fun row hrow => ⟨row, hrow, .refl row⟩

end Job

/-! ## One step -/

/-- What a handler of the job knows at its point. -/
structure PointSound (db : Db) (j : JobId) (p : Point) : Prop where
  progress : ∀ percent, p = .progressing percent → percent ≤ 100
  asset : p.isIngesting = true → ∃ a, db.assets.find? j = some a

theorem pointSound_ended (db : Db) (j : JobId) (outcome : Outbox.HandlerOutcome) :
    PointSound db j (.ended outcome) := ⟨nofun, nofun⟩

theorem kept_of_early {db db' : Db} {j : JobId} {expected : List JobStatus}
    {f : RenderJob → RenderJob} (hs : SoundJob db j) (h : updateJob db j expected f = some db')
    (hearly : ∀ status ∈ expected, status ∈ earlyStatuses)
    (howner : ∀ row, (f row).ownerId = row.ownerId)
    (hopen : ∀ row, row.status ∈ expected → (f row).status.isTerminal = false)
    (hprogress : ∀ row, row.progressPercent ≤ 100 →
      row.progressPercent ≤ (f row).progressPercent ∧ (f row).progressPercent ≤ 100) :
    Kept j db db' := by
  obtain ⟨row, hrow, hmem, rfl⟩ := updateJob_eq_some h
  obtain ⟨hle, hbound⟩ := hprogress row (hs.progress row hrow)
  exact kept_modifyJob hs hrow (hearly _ hmem) (howner row) (hopen row hmem) hle hbound

/-- What a handler does to its own job. -/
theorem Effect.kept {now : DateTime} {j : JobId} {answer : Answer} {db db' : Db} {p q : Point}
    {heard : List ComputeTrace} (he : Effect now j answer db p db' q heard) (hs : SoundJob db j)
    (hp : PointSound db j p) : Kept j db db' ∧ PointSound db' j q := by
  cases he
  case claimed hset =>
    exact ⟨kept_of_early hs hset (by decide) (fun _ => rfl) (fun _ _ => rfl)
      (fun _ h => ⟨le_refl _, h⟩), nofun, nofun⟩
  case claimCancelled hcancel =>
    exact ⟨kept_cancelAndRelease hs hcancel, pointSound_ended ..⟩
  case submitted hsaved =>
    have hkept := kept_of_early hs hsaved (by decide) (fun _ => rfl) (fun _ _ => rfl)
      (fun _ h => ⟨le_refl _, h⟩)
    exact ⟨⟨hkept.sound.congr rfl rfl rfl fun _ => Iff.rfl, hkept.job, hkept.asset⟩,
      pointSound_ended ..⟩
  case savedLate hsaved =>
    refine ⟨kept_of_early hs (saveRunIdIfCancelling_eq_some hsaved) (by decide) (fun _ => rfl) ?_
      (fun _ h => ⟨le_refl _, h⟩), pointSound_ended ..⟩
    intro row hmem
    have hstatus := List.mem_singleton.mp hmem
    exact (congrArg JobStatus.isTerminal hstatus).trans rfl
  case failed hfail => exact ⟨kept_failAndRelease hs hfail, pointSound_ended ..⟩
  case waiting hpercent =>
    refine ⟨.refl hs, ?_, nofun⟩
    rintro percent ⟨⟩
    exact hpercent
  case stopped hp' =>
    refine ⟨.refl hs, ?_⟩
    obtain rfl | ⟨code, rfl⟩ := hp' <;> exact ⟨nofun, nofun⟩
  case progressed percent outcome hsaved =>
    have hpercent := hp.progress percent rfl
    refine ⟨kept_of_early hs hsaved (by decide) (fun _ => rfl) ?_ ?_, pointSound_ended ..⟩
    · intro row hmem
      obtain hstatus := List.mem_singleton.mp hmem
      exact (congrArg JobStatus.isTerminal hstatus).trans rfl
    · exact fun row h => ⟨le_max_left .., max_le h hpercent⟩
  case cancelled hcancel => exact ⟨kept_cancelAndRelease hs hcancel, pointSound_ended ..⟩
  case succeeded hsaved =>
    exact ⟨kept_of_early hs hsaved (by decide) (fun _ => rfl) (fun _ _ => rfl)
      (fun _ h => ⟨h, le_refl _⟩), nofun, nofun⟩
  case alreadyReady hrow hstatus hready _ =>
    rw [not_alreadyReady hs hrow hstatus] at hready
    cases hready
  case ingesting master hrow hstatus hset =>
    obtain ⟨hkept, hasset⟩ := kept_ingesting hs hrow hstatus hset
    exact ⟨hkept, nofun, fun _ => hasset⟩
  case transferred hfrom hto =>
    refine ⟨.refl hs, ?_, fun _ => hp.asset ?_⟩
    · rintro percent rfl
      cases hto
    · cases p <;> first | rfl | cases hfrom
  case finalized master hdone =>
    obtain ⟨a, ha⟩ := hp.asset rfl
    exact ⟨kept_finalize hs ha hdone, pointSound_ended ..⟩
  case ingestFailed assetKnown hmark hfail =>
    subst hmark
    exact ⟨kept_ingestFailed hs assetKnown hfail, pointSound_ended ..⟩
  case ingestFailedLate assetKnown hmark hfail =>
    subst hmark
    exact ⟨kept_ingestFailedLate hs assetKnown hfail, pointSound_ended ..⟩
  case expired hexpire => exact ⟨kept_expireReservation hs hexpire, pointSound_ended ..⟩
  case deadLettered hfail => exact ⟨kept_failAndRelease hs hfail, pointSound_ended ..⟩
  all_goals exact ⟨.refl hs, nofun, nofun⟩

/-- No job goes back between the tables. -/
structure Grows (db db' : Db) : Prop where
  job : ∀ j row, db.jobs.find? j = some row →
    ∃ row', db'.jobs.find? j = some row' ∧ row.Precedes row'
  asset : ∀ j, (∃ a, db.assets.find? j = some a) → ∃ a, db'.assets.find? j = some a

theorem Grows.refl (db : Db) : Grows db db := ⟨fun _ row hrow => ⟨row, hrow, .refl row⟩, fun _ => id⟩

theorem Grows.trans {db₁ db₂ db₃ : Db} (h₁ : Grows db₁ db₂) (h₂ : Grows db₂ db₃) :
    Grows db₁ db₃ where
  job j row hrow := by
    obtain ⟨r₂, hr₂, hle₂⟩ := h₁.job j row hrow
    obtain ⟨r₃, hr₃, hle₃⟩ := h₂.job j r₂ hr₂
    exact ⟨r₃, hr₃, hle₂.trans hle₃⟩
  asset j := h₂.asset j ∘ h₁.asset j

theorem PointSound.grows {db db' : Db} {j : JobId} {p : Point} (hp : PointSound db j p)
    (hg : Grows db db') : PointSound db' j p := ⟨hp.progress, fun h => hg.asset j (hp.asset h)⟩

/-- The tables agree, and so does every handler. -/
structure Consistent (cfg : Settings) (s : State) : Prop where
  db : Sound cfg s.db
  point : ∀ h x, s.handlers h = some x → PointSound s.db x.job x.point

section Step
variable {cfg : Settings} {db db' : Db} {j : JobId}

theorem Sound.touched (hs : Sound cfg db) (ht : Touches j db db') (hk : Kept j db db') :
    Sound cfg db' where
  job i := by
    by_cases hi : i = j
    · subst hi
      exact hk.sound
    · exact (hs.job i).congr (ht.jobs i hi) (ht.reservations i hi) (ht.assets i hi)
        fun p => ht.recorded i p hi
  units user := (ht.units user).trans (hs.units user)

theorem Kept.grows (hk : Kept j db db') (ht : Touches j db db') : Grows db db' where
  job i row hrow := by
    by_cases hi : i = j
    · subst hi
      exact hk.job row hrow
    · exact ⟨row, (ht.jobs i hi).trans hrow, .refl row⟩
  asset i := by
    by_cases hi : i = j
    · subst hi
      exact hk.asset
    · rw [ht.assets i hi]
      exact id

theorem sound_created {now : DateTime} {owner : UserId} {outputKind : OutputKind}
    {outputSpec computeRequest : Json} {activeMember : Bool} {jobs : Table JobId RenderJob}
    (hs : Sound cfg db)
    (hjobs : db.jobs.insert? j (newJob owner outputKind outputSpec computeRequest) = some jobs)
    (hreserve : reserve cfg (setJobs db jobs) now owner j outputKind activeMember = .ok db') :
    Sound cfg db' ∧ Grows db db' := by
  obtain ⟨hfree, reservations, hinsert, rfl⟩ := reserve_eq_ok hreserve
  have hnew : db.jobs.find? j = none := (Table.insert?_eq_some hjobs).1
  have hnone : db.assets.find? j = none := by
    cases ha : db.assets.find? j with
    | none => rfl
    | some a =>
      obtain ⟨row, hrow, -⟩ := (hs.job j).asset a ha
      exact nomatch hnew.symm.trans hrow
  have hrow : ∀ r, jobs.find? j = some r →
      r = newJob owner outputKind outputSpec computeRequest := by
    intro r hr
    rw [Table.find?_insert hjobs, if_pos rfl] at hr
    exact (Option.some.inj hr).symm
  refine ⟨⟨fun i => ?_, fun user => ?_⟩, fun i row hi => ?_, fun _ => id⟩
  · by_cases hi : i = j
    · subst hi
      refine ⟨fun r hr => ?_, fun r hr => ?_, ?_, ?_, fun r hr hdone => ?_⟩
      · obtain rfl := hrow r hr
        exact ⟨newReservation owner now, by rw [Table.find?_insert hinsert, if_pos rfl], rfl,
          by simp [newReservation, newJob, JobStatus.isTerminal]⟩
      · obtain rfl := hrow r hr
        exact Int.zero_le_ofNat 100
      · exact fun a ha => nomatch hnone.symm.trans ha
      · exact fun a ha => nomatch hnone.symm.trans ha
      · obtain rfl := hrow r hr
        cases hdone
    · refine (hs.job i).congr ?_ ?_ rfl fun _ => Iff.rfl
      · exact (Table.find?_insert hjobs i).trans (if_neg hi)
      · exact (Table.find?_insert hinsert i).trans (if_neg hi)
  · have hsum : reservations.sum (fun _ res => res.reservedUnits user) =
        reservedUnits db user + (newReservation owner now).reservedUnits user :=
      Table.sum_insert hinsert _
    have hbefore := hs.units user
    have hlt : reservedUnits db owner < cfg.renderQuotaMaxActive := hfree
    show reservations.sum _ ≤ _
    rw [hsum]
    by_cases huser : owner = user
    · subst huser
      simp only [Reservation.reservedUnits, newReservation, and_self, if_true]
      omega
    · simp only [Reservation.reservedUnits, newReservation, huser, false_and, if_false]
      omega
  · exact ⟨row, Table.find?_of_insert hjobs hi, .refl row⟩

theorem kept_requestCancel (hs : SoundJob db j)
    (h : setStatus db j [.queued, .submitting, .running] .cancelRequested none = some db') :
    Kept j db db' :=
  kept_of_early hs h (by decide) (fun _ => rfl) (fun _ _ => rfl) fun _ h => ⟨le_refl _, h⟩

theorem Sound.withEvents (hs : Sound cfg db) (events : Table (JobId × EventType) EventStatus) :
    Sound cfg { db with events } :=
  ⟨fun i => (hs.job i).congr rfl rfl rfl fun _ => Iff.rfl, hs.units⟩

/-- Every effect keeps jobs, reservations and assets consistent. -/
theorem consistent_of_moved {s s' : State} {a : Action} (hc : Consistent cfg s)
    (hm : Moved cfg s a s') : Consistent cfg s' ∧ Grows s.db s'.db := by
  have hkeep : ∀ {db}, Grows s.db db → ∀ h x, s.handlers h = some x →
      PointSound db x.job x.point := fun hg h x hx => (hc.point h x hx).grows hg
  cases hm
  case idle events now handlers hhandlers =>
    refine ⟨⟨hc.db.withEvents events, fun h x hx => ?_⟩, ⟨(Grows.refl s.db).job, fun _ => id⟩⟩
    obtain hold | ⟨type, hpoint⟩ | ⟨code, hpoint⟩ := hhandlers h x hx
    · have hold' := hc.point h x hold
      exact ⟨hold'.progress, hold'.asset⟩
    · rw [hpoint]
      cases type <;> exact ⟨nofun, nofun⟩
    · rw [hpoint]
      exact ⟨nofun, nofun⟩
  case created hjobs hreserve =>
    obtain ⟨hsound, hgrows⟩ := sound_created hc.db hjobs hreserve
    exact ⟨⟨hsound.withEvents _, hkeep ⟨hgrows.job, hgrows.asset⟩⟩, hgrows.job, hgrows.asset⟩
  case cancelRequested hset =>
    have htouch := Touches.updateJob hset
    have hk := kept_requestCancel (hc.db.job _) hset
    have hgrows := hk.grows htouch
    exact ⟨⟨(hc.db.touched htouch hk).withEvents _, hkeep ⟨hgrows.job, hgrows.asset⟩⟩,
      hgrows.job, hgrows.asset⟩
  case deleted hdelete =>
    obtain ⟨htouch, hk⟩ := kept_softDelete (hc.db.job _) hdelete
    exact ⟨⟨hc.db.touched htouch hk, hkeep (hk.grows htouch)⟩, hk.grows htouch⟩
  case advanced h x answer db' q heard hx he =>
    obtain ⟨hk, hq⟩ := he.kept (hc.db.job x.job) (hc.point h x hx)
    have hgrows := hk.grows he.touches
    refine ⟨⟨hc.db.touched he.touches hk, fun i y hy => ?_⟩, hgrows⟩
    obtain hnew | hold := update_eq_some hy
    · obtain rfl := Option.some.inj hnew
      exact hq
    · exact hkeep hgrows i y hold

end Step

/-- The database is empty at first. -/
theorem consistent_init {cfg : Settings} {s : State} (h : Init s) : Consistent cfg s := by
  obtain ⟨hdb, hhandlers, -⟩ := h
  refine ⟨⟨fun j => ?_, fun user => ?_⟩, fun h x hx => ?_⟩
  · rw [hdb]
    constructor <;> intro row hrow <;> simp at hrow
  · rw [hdb, reservedUnits, Table.sum_empty]
    exact Nat.zero_le _
  · rw [hhandlers] at hx
    cases hx

/-- The run lemma. -/
theorem consistent_of_reach {cfg : Settings} {s : State} (hr : Reach Init (step cfg) Free s) :
    Consistent cfg s := by
  refine hr.invariant (fun _ => consistent_init) ?_
  intro s a s' hc _ hstep
  exact (consistent_of_moved hc (moved_of_step hstep)).1

theorem grows_of_later {cfg : Settings} {s s' : State} (hr : Reach Init (step cfg) Free s)
    (hl : Later (step cfg) Free s s') : Grows s.db s'.db := by
  refine hl.keeps (P := fun t => Grows s.db t.db) ?_ hr (.refl s.db)
  intro t a t' ht hgrows _ hstep
  exact hgrows.trans (consistent_of_moved (consistent_of_reach ht) (moved_of_step hstep)).2

/-- In every reachable state a reservation is held exactly while its job has not ended, a job only
moves on, a completed one has its asset, and the held units of a user are within the quota. -/
theorem render_quota_consistent (cfg : Settings) {s : State}
    (hr : Reach Init (step cfg) Free s) :
    (∀ j row, s.db.jobs.find? j = some row →
      (∃ res, s.db.reservations.find? j = some res ∧ res.userId = row.ownerId ∧
        (res.status = .reserved ↔ row.status ∉ [.completed, .failed, .cancelled])) ∧
      (∀ s', Later (step cfg) Free s s' → ∃ row', s'.db.jobs.find? j = some row' ∧
        row.progressPercent ≤ row'.progressPercent ∧
        (row.status ∈ [.completed, .failed, .cancelled] → row'.status = row.status)) ∧
      (row.status = .completed → ∃ a, s.db.assets.find? j = some a ∧
        (a.status = .ready ∨ a.status = .deleted) ∧
        (j, .master) ∈ s.db.recorded ∧ (j, .renderManifest) ∈ s.db.recorded)) ∧
    ∀ user, reservedUnits s.db user ≤ cfg.renderQuotaMaxActive := by
  have hc := consistent_of_reach hr
  have hend : ∀ status : JobStatus,
      status ∈ [JobStatus.completed, .failed, .cancelled] ↔ status.isTerminal = true := by
    intro status
    cases status <;> decide
  refine ⟨fun j row hrow => ⟨?_, fun s' hl => ?_, fun hdone => ?_⟩, hc.db.units⟩
  · obtain ⟨res, hres, huser, hheld⟩ := (hc.db.job j).reserved row hrow
    exact ⟨res, hres, huser, by rw [hheld, hend, Bool.not_eq_true]⟩
  · obtain ⟨row', hrow', hle, hstays⟩ := (grows_of_later hr hl).job j row hrow
    exact ⟨row', hrow', hle, fun h => hstays ((hend _).mp h)⟩
  · obtain ⟨⟨a, ha⟩, hrec⟩ := (hc.db.job j).completed row hrow hdone
    refine ⟨a, ha, ?_, hrec .master, hrec .renderManifest⟩
    obtain ⟨r, hr', hfits⟩ := (hc.db.job j).asset a ha
    obtain rfl := Option.some.inj (hrow.symm.trans hr')
    rw [hdone] at hfits
    revert hfits
    cases a.status <;> decide

/-! ### A run -/

def emptyState : State := ⟨⟨.empty, .empty, .empty, .empty, []⟩, 0, fun _ => none, []⟩

theorem init_emptyState : Init emptyState := ⟨rfl, rfl, rfl⟩

/-- One image export for which Compute answers with the run `run-1`. -/
def imageSpec : Json := .obj [("kind", .str "image")]

def imageRequest : Json := .obj [("route", .str "/v1/runs"), ("body", .obj [])]

def imageRun (status : String) : ComputeRunStatus :=
  ⟨"run-1", status, 0, [⟨"run-1:a.png", "a.png", "image", "image/png", 10,
    some "0000000000000000000000000000000000000000000000000000000000000000"⟩], none⟩

def createImage : Action := .create 1 7 .image imageSpec imageRequest true

/-- The delivery `h` of the event takes `answers.length` steps. -/
def delivery (h : HandlerId) (type : EventType) (answers : List Answer) : List Action :=
  .deliver h 1 type :: answers.map (.advance h)

/-- An answer to a step that reads none. -/
def silent : Answer := .error ""

def submitImage (h : HandlerId) : List Action :=
  delivery h .created [silent, .ok (imageRun "queued"), silent]

/-- The poll handler up to the first transaction of the ingestion. -/
def pollImage (h : HandlerId) : List Action :=
  delivery h .poll [silent, .ok (imageRun "completed"), .ok (imageRun "completed"), silent]

def ingestImage (h : HandlerId) : List Action :=
  [silent, .ok (imageRun ""), .ok (imageRun ""), .ok (imageRun ""), silent].map (.advance h)

def settings : Settings := ⟨2, 3, 5⟩

/-- A render that completes: its quota is settled and its asset is there. -/
theorem render_quota_consistent_run : ∃ s, jobStatus s.db 1 = some .completed ∧
    Reach Init (step settings) Free s ∧
    (∃ res, s.db.reservations.find? 1 = some res ∧ res.status ≠ .reserved) ∧
    (∃ a, s.db.assets.find? 1 = some a ∧ (a.status = .ready ∨ a.status = .deleted) ∧
      (1, FilePurpose.master) ∈ s.db.recorded ∧ (1, FilePurpose.renderManifest) ∈ s.db.recorded) ∧
    reservedUnits s.db 7 ≤ 2 := by
  have hrun : (exec (step settings) emptyState
      (createImage :: submitImage 0 ++ pollImage 1 ++ ingestImage 1)).any
      (fun s => decide (jobStatus s.db 1 = some .completed)) = true := by decide +kernel
  obtain ⟨s, hexec, hdone⟩ := (Option.any_eq_true _ _).mp hrun
  have hstatus := of_decide_eq_true hdone
  have hr := reach_of_exec init_emptyState hexec
  obtain ⟨row, hrow, hcompleted⟩ := Option.map_eq_some_iff.mp hstatus
  obtain ⟨hjob, hunits⟩ := render_quota_consistent settings hr
  obtain ⟨⟨res, hres, -, hheld⟩, -, hasset⟩ := hjob 1 row hrow
  refine ⟨s, hstatus, hr, ⟨res, hres, fun h => ?_⟩, hasset hcompleted, hunits 7⟩
  exact hheld.mp h (by rw [hcompleted]; decide)

end FractalStudio.Studio
