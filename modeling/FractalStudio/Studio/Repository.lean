import FractalStudio.Lib.Json
import FractalStudio.Lib.Table

/-!
# Render jobs, their quota reservations and their assets

`render_job_repository.py`, the reservation of `quota_service.py` and the ingestion part of
`assets/repository.py`. A function is one statement or the statements that always run together; an
`UPDATE` that may find no row returns `none` for a row count of zero.

A job has one reservation and one asset at most (`uq_quota_reservations_render_job`,
`uq_assets_render_job`), so both tables are keyed by the job.
-/
namespace FractalStudio.Studio

abbrev JobId := Nat
abbrev UserId := Nat
abbrev DateTime := Nat

inductive JobStatus where
  | queued
  | submitting
  | running
  | computeSucceeded
  | ingesting
  | completed
  | failed
  | cancelRequested
  | cancelled
  deriving DecidableEq

/-- `TERMINAL_STATUSES`. -/
def JobStatus.isTerminal : JobStatus → Bool
  | .completed | .failed | .cancelled => true
  | _ => false

inductive OutputKind where
  | image
  | video
  | hsMesh
  | transitionMesh
  deriving DecidableEq

inductive ReservationStatus where
  | reserved
  | released
  | expired
  deriving DecidableEq

inductive AssetStatus where
  | processing
  | ready
  | failed
  | deleted
  deriving DecidableEq

/-- The purposes an ingestion records. -/
inductive FilePurpose where
  | master
  | renderManifest
  deriving DecidableEq

structure ComputeArtifact where
  artifactId : String
  name : String
  kind : String
  mediaType : String
  sizeBytes : Int
  sha256 : Option String
  deriving DecidableEq

/-- `compute_result_json`, as the poll handler builds it. -/
structure ComputeResult where
  runId : String
  status : String
  artifacts : List ComputeArtifact
  deriving DecidableEq

/-- A row of `render_jobs`. -/
structure RenderJob where
  ownerId : UserId
  status : JobStatus
  computeRunId : Option String
  outputKind : OutputKind
  outputSpec : Json
  computeRequest : Json
  progressPercent : Int
  computeResult : Option ComputeResult
  selectedArtifactIds : Option (List String)
  errorCode : Option String

/-- A row of `quota_reservations`. -/
structure Reservation where
  userId : UserId
  units : Nat
  status : ReservationStatus
  expiresAt : DateTime
  deriving DecidableEq

structure Asset where
  ownerId : UserId
  mediaType : String
  status : AssetStatus
  files : List FilePurpose
  deriving DecidableEq

/-- The event types of a render job. -/
inductive EventType where
  | created
  | poll
  | cancelRequested
  | quotaExpired
  deriving DecidableEq

inductive EventStatus where
  | pending
  | done
  | dead
  deriving DecidableEq

/-- The tables, and every `asset_files` row that was ever inserted. -/
structure Db where
  jobs : Table JobId RenderJob
  reservations : Table JobId Reservation
  assets : Table JobId Asset
  events : Table (JobId × EventType) EventStatus
  recorded : List (JobId × FilePurpose)

structure Settings where
  renderQuotaMaxActive : Nat
  renderFreeExportLimit : Nat
  renderPollIntervalSeconds : Nat

/-! ## Reads -/

def jobStatus (db : Db) (job : JobId) : Option JobStatus := (db.jobs.find? job).map RenderJob.status

def countLifetimeExports (db : Db) (owner : UserId) : Nat :=
  (db.jobs.select fun _ row => row.ownerId = owner && row.outputKind = .image &&
    row.status ∉ [.failed, .cancelled]).length

def Reservation.reservedUnits (res : Reservation) (user : UserId) : Nat :=
  if res.userId = user ∧ res.status = .reserved then res.units else 0

def reservedUnits (db : Db) (user : UserId) : Nat :=
  db.reservations.sum fun _ res => res.reservedUnits user

def expiredReservationJobs (db : Db) (now : DateTime) : List JobId :=
  (db.reservations.select fun _ res => res.status = .reserved && res.expiresAt ≤ now).map Prod.fst

/-! ## Writes to a job -/

def setJobs (db : Db) (jobs : Table JobId RenderJob) : Db := { db with jobs }

def updateJob (db : Db) (job : JobId) (expected : List JobStatus) (f : RenderJob → RenderJob) :
    Option Db :=
  if (jobStatus db job).any (· ∈ expected) then some (setJobs db (db.jobs.modify job f)) else none

def RenderJob.withStatus (status : JobStatus) (errorCode : Option String) (row : RenderJob) :
    RenderJob :=
  { row with status, errorCode := errorCode.orElse fun _ => row.errorCode }

def setStatus (db : Db) (job : JobId) (expected : List JobStatus) (next : JobStatus)
    (errorCode : Option String) : Option Db :=
  updateJob db job expected (.withStatus next errorCode)

def saveSubmission (db : Db) (job : JobId) (runId : String) : Option Db :=
  updateJob db job [.submitting] fun row =>
    { row with computeRunId := some runId, status := .running }

def saveRunIdIfCancelling (db : Db) (job : JobId) (runId : String) : Option Db :=
  if (db.jobs.find? job).any (·.computeRunId = none) then
    updateJob db job [.cancelRequested] fun row => { row with computeRunId := some runId }
  else none

def updateProgress (db : Db) (job : JobId) (progressPercent : Int) : Option Db :=
  updateJob db job [.running] fun row =>
    { row with progressPercent := max row.progressPercent progressPercent }

def saveComputeSuccess (db : Db) (job : JobId) (result : ComputeResult) (selected : List String) :
    Option Db :=
  updateJob db job [.running] fun row =>
    { row with
      status := .computeSucceeded
      progressPercent := 100
      computeResult := some result
      selectedArtifactIds := some selected }

/-! ## Reservations -/

def setReservation (db : Db) (job : JobId) (status : ReservationStatus) : Db :=
  { db with
    reservations := db.reservations.updateWhere
      (fun j res => j = job && res.status = .reserved) fun _ res => { res with status } }

def releaseReservation (db : Db) (job : JobId) : Db := setReservation db job .released

def cancelAndRelease (db : Db) (job : JobId) : Option Db :=
  (setStatus db job [.queued, .submitting, .running, .cancelRequested] .cancelled none).map
    fun db => releaseReservation db job

/-- `fail_and_release`: a cancellation requested meanwhile wins. -/
def failAndRelease (db : Db) (job : JobId) (errorCode : String) : Option Db :=
  ((setStatus db job [.queued, .submitting, .running, .computeSucceeded, .ingesting] .failed
    (some errorCode)).map fun db => releaseReservation db job).orElse
      fun _ => cancelAndRelease db job

def expireReservation (db : Db) (now : DateTime) (job : JobId) : Option Db :=
  match db.reservations.find? job, db.jobs.find? job with
  | some res, some row =>
    if res.status ≠ .reserved then none
    else if now < res.expiresAt then none
    else if row.status.isTerminal then some (releaseReservation db job)
    else
      let next : RenderJob → RenderJob :=
        if row.status = .cancelRequested then .withStatus .cancelled none
        else .withStatus .failed (some "quota_reservation_expired")
      some (setReservation (setJobs db (db.jobs.modify job next)) job .expired)
  | _, _ => none

def newJob (owner : UserId) (outputKind : OutputKind) (outputSpec computeRequest : Json) :
    RenderJob where
  ownerId := owner
  status := .queued
  computeRunId := none
  outputKind
  outputSpec
  computeRequest
  progressPercent := 0
  computeResult := none
  selectedArtifactIds := none
  errorCode := none

/-- `create_reservation`: one unit for 24 hours. -/
def newReservation (owner : UserId) (now : DateTime) : Reservation := ⟨owner, 1, .reserved, now + 86400⟩

/-- `RenderQuotaService.reserve`, for a job that is inserted already. -/
def reserve (cfg : Settings) (db : Db) (now : DateTime) (owner : UserId) (job : JobId)
    (outputKind : OutputKind) (activeMember : Bool) : Except String Db :=
  if outputKind = .image && !activeMember &&
      cfg.renderFreeExportLimit < countLifetimeExports db owner then
    .error "export_quota_exhausted"
  else if cfg.renderQuotaMaxActive ≤ reservedUnits db owner then .error "quota_exceeded"
  else match db.reservations.insert? job (newReservation owner now) with
  | some reservations => .ok { db with reservations }
  | none => .error "internal"

/-- `append`: a duplicate key changes nothing. -/
def appendEvent (db : Db) (job : JobId) (type : EventType) : Db :=
  { db with events := db.events.insertIfAbsent (job, type) .pending }

/-! ## Assets -/

def assetMediaType : OutputKind → String
  | .image => "image"
  | .video => "video"
  | .hsMesh | .transitionMesh => "mesh"

def setAssets (db : Db) (assets : Table JobId Asset) : Db := { db with assets }

def createOrGetProcessing (db : Db) (job : JobId) (row : RenderJob) : Db :=
  setAssets db (db.assets.insertIfAbsent job
    ⟨row.ownerId, assetMediaType row.outputKind, .processing, []⟩)

/-- `INSERT INTO asset_files ... ON CONFLICT (asset_id, purpose) DO NOTHING`. -/
def recordFile (db : Db) (job : JobId) (purpose : FilePurpose) : Db :=
  if (db.assets.find? job).any (purpose ∉ ·.files) then
    { db with
      assets := db.assets.modify job fun a => { a with files := a.files ++ [purpose] }
      recorded := db.recorded ++ [(job, purpose)] }
  else db

def Asset.moveStatus (status next : AssetStatus) (a : Asset) : Asset :=
  if a.status = status then { a with status := next } else a

def completeMaster (db : Db) (job : JobId) : Db :=
  let db := recordFile db job .master
  setAssets db (db.assets.modify job (.moveStatus .processing .ready))

def finalizeIngestion (db : Db) (job : JobId) : Db :=
  recordFile (completeMaster db job) job .renderManifest

def markFailed (db : Db) (job : JobId) : Db :=
  setAssets db (db.assets.modify job (.moveStatus .processing .failed))

def completeJob (db : Db) (job : JobId) : Option Db :=
  (setStatus db job [.ingesting, .computeSucceeded] .completed none).map
    fun db => releaseReservation db job

/-- `soft_delete`: the files go unless a sale retains them. -/
def softDelete (db : Db) (job : JobId) (retained : Bool) : Option Db :=
  match db.assets.find? job with
  | some a =>
    if a.status = .ready ∨ a.status = .failed then
      some (setAssets db (db.assets.modify job fun a =>
        { a with status := .deleted, files := if retained then a.files else [] }))
    else none
  | none => none

end FractalStudio.Studio
