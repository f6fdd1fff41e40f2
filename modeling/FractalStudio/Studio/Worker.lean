import FractalStudio.Outbox.Model
import FractalStudio.Studio.Repository

/-!
# The render worker as interleaved deliveries

`render_worker.py`, `AssetIngestionService.create_from_completed_render` and the API's job
operations. A handler advances one transaction or one network answer at a time, so any interleaving
of deliveries is a run of `step`. The outbox appears as what it promises: a pending event may be
delivered any number of times, also at once, until a delivery is marked done or the event is
dead-lettered. The trace records what the handlers heard from Compute and told it.
-/
namespace FractalStudio.Studio

open Transition
open Outbox (HandlerOutcome)

abbrev HandlerId := Nat

/-! ## Compute -/

structure ComputeRunStatus where
  runId : String
  status : String
  progressPercent : Int
  artifacts : List ComputeArtifact
  errorCode : Option String

/-- The answer to a network call: a `ComputeClientError` (or a failed upload) by its code,
or a status. -/
abbrev Answer := Except String ComputeRunStatus

inductive ComputeTrace where
  | returned (job : JobId) (runId : String)
  | sent (job : JobId) (runId : String)
  | observed (job : JobId) (runId : String)
  deriving DecidableEq

/-- The statuses on which the poll handler waits on. It takes any other for final. -/
def inProgress (status : String) : Bool := status ∈ ["queued", "running", "submitting"]

/-- `_select_artifacts`. -/
def expectedMedia (outputSpec : Json) : Option String :=
  match (outputSpec.get? "kind").bind Json.str? with
  | some "image" => some "image/png"
  | some "video" => some "video/mp4"
  | some "hs_mesh" | some "transition_mesh" =>
    match (outputSpec.get? "format").bind Json.str? with
    | some "glb" => some "model/gltf-binary"
    | some "stl" => some "application/sla"
    | _ => none
  | _ => none

def selectArtifacts (outputSpec : Json) (artifacts : List ComputeArtifact) : List ComputeArtifact :=
  match expectedMedia outputSpec with
  | none => []
  | some media => (artifacts.filter fun a =>
      a.mediaType = media && 0 < a.sizeBytes && a.sizeBytes ≤ 524288000).take 1

/-! ## The master artifact of an ingestion -/

structure Master where
  artifactId : String
  filename : String
  mediaType : String
  sha256 : String
  sizeBytes : Int

def occursIn (part text : List Char) : Bool := text.tails.any part.isPrefixOf

def validateArtifactId (artifactId : String) : Except String String :=
  let runId := artifactId.toList.takeWhile (· ≠ ':')
  let filename := (artifactId.toList.dropWhile (· ≠ ':')).drop 1
  let unsafePart (part : List Char) : Bool :=
    part.isEmpty || occursIn ['.', '.'] part || '/' ∈ part || '\\' ∈ part
  if unsafePart runId || unsafePart filename || ':' ∈ filename || filename = ['.'] then
    .error "invalid_artifact_id"
  else .ok (String.ofList filename)

/-- `_EXTENSION_BY_MEDIA_TYPE`. -/
def extensionOf : String → Option String
  | "image/png" => some ".png"
  | "video/mp4" => some ".mp4"
  | "model/gltf-binary" => some ".glb"
  | "application/sla" => some ".stl"
  | _ => none

def sha256Hex (text : String) : Bool :=
  text.length = 64 && text.toList.all fun c => c.isDigit || c ∈ ['a', 'b', 'c', 'd', 'e', 'f']

def masterMetadata (result : Option ComputeResult) (selected : Option (List String)) :
    Except String Master :=
  match result, selected with
  | some result, some [selectedId] =>
    match result.artifacts.find? fun a => a.artifactId = selectedId with
    | none => .error "selected_artifact_not_found"
    | some a =>
      match a.sha256 with
      | none => .error "selected_artifact_not_found"
      | some sha256 =>
        match validateArtifactId a.artifactId with
        | .error e => .error e
        | .ok filename =>
          if (extensionOf a.mediaType).any (fun ext => ext.toList.isSuffixOf filename.toList) &&
              0 < a.sizeBytes && a.sizeBytes ≤ 524288000 && sha256Hex sha256 then
            .ok ⟨a.artifactId, filename, a.mediaType, sha256, a.sizeBytes⟩
          else .error "invalid_master_artifact"
  | _, _ => .error "missing_selected_artifact"

/-! ## Program points -/

inductive Point where
  | submitClaim
  | creating (request : Json)
  | savingRun (runId : String)
  | failing (errorCode : String)
  | pollRead
  | polling (runId : String) (outputSpec : Json)
  | progressing (percent : Int)
  | pollCancelling
  | fetching (runId : String) (outputSpec : Json)
  | succeeding (result : ComputeResult) (selected : List String)
  | ingestClaim
  | downloading (master : Master)
  | uploadingMaster (master : Master)
  | uploadingManifest (master : Master)
  | finalizing (master : Master)
  | ingestFailing (assetKnown : Bool)
  | cancelRead
  | cancelWithout
  | cancelSending (runId : String)
  | cancelSent (runId : String)
  | expiring
  | deadLetter (errorCode : String)
  | ended (outcome : HandlerOutcome)

structure Handler where
  job : JobId
  type : EventType
  point : Point

/-- The database, the clock, the handlers and what Compute has heard. -/
structure State where
  db : Db
  now : DateTime
  handlers : HandlerId → Option Handler
  trace : List ComputeTrace

def State.goto (s : State) (h : HandlerId) (x : Handler) (point : Point) : State :=
  { s with handlers := Function.update s.handlers h (some { x with point }) }

def State.finish (s : State) (h : HandlerId) (x : Handler) (outcome : HandlerOutcome) : State :=
  s.goto h x (.ended outcome)

def State.commit (s : State) (db : Db) : State := { s with db }

/-- Commit an update that may have found no row. -/
def State.tryCommit (s : State) (db : Option Db) : State := s.commit (db.getD s.db)

def State.note (s : State) (entry : ComputeTrace) : State := { s with trace := s.trace ++ [entry] }

/-! ## `submit_image_video_or_mesh_run` -/

def submitClaim (s : State) (h : HandlerId) (x : Handler) : State :=
  match s.db.jobs.find? x.job with
  | none => s.finish h x .returned
  | some row =>
    if row.status.isTerminal then s.finish h x .returned
    else if row.status = .cancelRequested then
      (s.tryCommit (cancelAndRelease s.db x.job)).finish h x .returned
    else if row.status = .queued then
      (s.tryCommit (setStatus s.db x.job [.queued] .submitting none)).goto h x
        (.creating row.computeRequest)
    else if row.status = .submitting then s.goto h x (.creating row.computeRequest)
    else s.finish h x .returned

def requestValid (request : Json) : Bool :=
  ((request.get? "route").bind Json.str?).isSome && (request.get? "body").any Json.isObj

def retryableCreateErrors : List String :=
  ["compute_timeout", "compute_unavailable", "compute_conflict"]

def createRun (s : State) (h : HandlerId) (x : Handler) (request : Json) (answer : Answer) : State :=
  if !requestValid request then s.goto h x (.failing "invalid_saved_compute_request")
  else match answer with
  | .error code =>
    if code ∈ retryableCreateErrors then s.finish h x (.retryable code)
    else s.goto h x (.failing code)
  | .ok run => (s.note (.returned x.job run.runId)).goto h x (.savingRun run.runId)

def runIdFits (runId : String) : Bool := runId.length ≤ 128

def saveRun (s : State) (h : HandlerId) (x : Handler) (runId : String) : State :=
  match s.db.jobs.find? x.job with
  | none => s.finish h x .returned
  | some row =>
    if row.status = .submitting then
      if runIdFits runId then
        match saveSubmission s.db x.job runId with
        | some db => (s.commit (appendEvent db x.job .poll)).finish h x .returned
        | none => s.finish h x .returned
      else s.finish h x .unexpected
    else if row.status = .cancelRequested then
      if runIdFits runId || row.computeRunId.isSome then
        (s.tryCommit (saveRunIdIfCancelling s.db x.job runId)).finish h x .returned
      else s.finish h x .unexpected
    else s.finish h x .returned

/-- `_fail`. A code that is longer than its column of 120 characters fails the update
that stores it. -/
def failJob (s : State) (h : HandlerId) (x : Handler) (errorCode : String) : State :=
  if (jobStatus s.db x.job).any (fun status => !status.isTerminal && status ≠ .cancelRequested) &&
      120 < errorCode.length then s.finish h x .unexpected
  else (s.tryCommit (failAndRelease s.db x.job errorCode)).finish h x .returned

/-! ## `poll_run_status` -/

def pollRead (s : State) (h : HandlerId) (x : Handler) : State :=
  match s.db.jobs.find? x.job with
  | none => s.finish h x .returned
  | some row =>
    if row.status.isTerminal then s.finish h x .returned
    else if row.status = .computeSucceeded then s.goto h x .ingestClaim
    else if row.status = .cancelRequested then s.finish h x (.deferred 1)
    else match row.computeRunId.filter (· ≠ "") with
    | some runId =>
      if row.status = .running then s.goto h x (.polling runId row.outputSpec)
      else s.finish h x (.retryable "render_job_not_pollable")
    | none => s.finish h x (.retryable "render_job_not_pollable")

def pollAnswered (s : State) (h : HandlerId) (x : Handler) (runId : String) (outputSpec : Json)
    (answer : Answer) : State :=
  match answer with
  | .error code => s.finish h x (.retryable code)
  | .ok run =>
    if inProgress run.status then s.goto h x (.progressing (max 0 (min 100 run.progressPercent)))
    else
      let s := s.note (.observed x.job runId)
      if run.status = "cancelled" then s.goto h x .pollCancelling
      else if run.status = "failed" then
        s.goto h x (.failing ((run.errorCode.filter (· ≠ "")).getD "compute_failed"))
      else if run.status ≠ "completed" then s.goto h x (.failing "compute_invalid_status")
      else s.goto h x (.fetching runId outputSpec)

def saveProgress (cfg : Settings) (s : State) (h : HandlerId) (x : Handler) (percent : Int) : State :=
  (s.tryCommit (updateProgress s.db x.job percent)).finish h x
    (.deferred cfg.renderPollIntervalSeconds)

def cancelJob (s : State) (h : HandlerId) (x : Handler) : State :=
  (s.tryCommit (cancelAndRelease s.db x.job)).finish h x .returned

def manifestAnswered (s : State) (h : HandlerId) (x : Handler) (runId : String) (outputSpec : Json)
    (answer : Answer) : State :=
  match answer with
  | .error code => s.finish h x (.retryable code)
  | .ok manifest =>
    if manifest.runId ≠ runId ∨ manifest.status ≠ "completed" then
      s.goto h x (.failing "compute_invalid_manifest")
    else match selectArtifacts outputSpec manifest.artifacts with
    | [] => s.goto h x (.failing "compute_master_artifact_missing")
    | selected => s.goto h x (.succeeding ⟨manifest.runId, manifest.status, selected⟩
        (selected.map ComputeArtifact.artifactId))

def saveSuccess (s : State) (h : HandlerId) (x : Handler) (result : ComputeResult)
    (selected : List String) : State :=
  match saveComputeSuccess s.db x.job result selected with
  | some db => (s.commit db).goto h x .ingestClaim
  | none => s.finish h x .returned

/-- The first transaction. -/
def ingestClaim (s : State) (h : HandlerId) (x : Handler) : State :=
  match s.db.jobs.find? x.job with
  | none => s.finish h x .returned
  | some row =>
    if row.status = .completed then s.finish h x .returned
    else if row.status ≠ .computeSucceeded then s.goto h x (.ingestFailing false)
    else
      let db := createOrGetProcessing s.db x.job row
      if (db.assets.find? x.job).any (·.status = .ready) then
        (s.commit ((completeJob db x.job).getD db)).finish h x .returned
      else match masterMetadata row.computeResult row.selectedArtifactIds with
      | .error _ => s.goto h x (.ingestFailing true)
      | .ok master =>
        (s.commit ((setStatus db x.job [.computeSucceeded] .ingesting none).getD db)).goto h x
          (.downloading master)

/-- A step of the ingestion between its transactions. -/
def transfer (s : State) (h : HandlerId) (x : Handler) (next : Point) (answer : Answer) : State :=
  match answer with
  | .ok _ => s.goto h x next
  | .error _ => s.goto h x (.ingestFailing true)

/-- The second transaction. -/
def finalize (s : State) (h : HandlerId) (x : Handler) : State :=
  if (jobStatus s.db x.job).any (· ∈ [.ingesting, .computeSucceeded]) then
    let db := finalizeIngestion s.db x.job
    (s.commit ((completeJob db x.job).getD db)).finish h x .returned
  else s.goto h x (.ingestFailing true)

/-- `_mark_failure_and_queue_cleanup`, and the error that is raised again. -/
def ingestFailed (s : State) (h : HandlerId) (x : Handler) (assetKnown : Bool) : State :=
  let db := if assetKnown then markFailed s.db x.job else s.db
  (s.commit ((failAndRelease db x.job "asset_ingestion_failed").getD db)).finish h x .unexpected

def cancelRead (s : State) (h : HandlerId) (x : Handler) : State :=
  match s.db.jobs.find? x.job with
  | none => s.finish h x .returned
  | some row =>
    if row.status ≠ .cancelRequested then s.finish h x .returned
    else match row.computeRunId.filter (· ≠ "") with
    | none => s.goto h x .cancelWithout
    | some runId => s.goto h x (.cancelSending runId)

def cancelSend (s : State) (h : HandlerId) (x : Handler) (runId : String) (answer : Answer) : State :=
  let s := s.note (.sent x.job runId)
  match answer with
  | .error code => s.finish h x (.retryable code)
  | .ok _ => s.goto h x (.cancelSent runId)

def expireQuota (s : State) (h : HandlerId) (x : Handler) : State :=
  (s.tryCommit (expireReservation s.db s.now x.job)).finish h x .returned

def failDeadLetter (s : State) (h : HandlerId) (x : Handler) (errorCode : String) : State :=
  (s.tryCommit (failAndRelease s.db x.job
    (String.ofList (("outbox_" ++ errorCode).toList.take 120)))).finish h x .returned

/-- The transaction of `create`. What refuses a request before the job is inserted is not
modelled; the quota's refusals are. -/
def create (cfg : Settings) (s : State) (job : JobId) (owner : UserId) (outputKind : OutputKind)
    (outputSpec computeRequest : Json) (activeMember : Bool) : Option State :=
  (s.db.jobs.insert? job (newJob owner outputKind outputSpec computeRequest)).bind fun jobs =>
    match reserve cfg (setJobs s.db jobs) s.now owner job outputKind activeMember with
    | .ok db => some (s.commit (appendEvent db job .created))
    | .error _ => none

/-- The transaction of `request_cancel`; a refused request changes nothing. -/
def requestCancel (s : State) (job : JobId) : Option State :=
  (setStatus s.db job [.queued, .submitting, .running] .cancelRequested none).map fun db =>
    s.commit (appendEvent db job .cancelRequested)

/-- `schedule_due_work`. -/
def schedule (s : State) : State :=
  s.commit ((expiredReservationJobs s.db s.now).foldl (fun db job => appendEvent db job .quotaExpired)
    s.db)

/-! ## The step function -/

def advance (cfg : Settings) (s : State) (h : HandlerId) (x : Handler) (answer : Answer) :
    Option State :=
  match x.point with
  | .submitClaim => some (submitClaim s h x)
  | .creating request => some (createRun s h x request answer)
  | .savingRun runId => some (saveRun s h x runId)
  | .failing errorCode => some (failJob s h x errorCode)
  | .pollRead => some (pollRead s h x)
  | .polling runId outputSpec => some (pollAnswered s h x runId outputSpec answer)
  | .progressing percent => some (saveProgress cfg s h x percent)
  | .pollCancelling => some (cancelJob s h x)
  | .fetching runId outputSpec => some (manifestAnswered s h x runId outputSpec answer)
  | .succeeding result selected => some (saveSuccess s h x result selected)
  | .ingestClaim => some (ingestClaim s h x)
  | .downloading master => some (transfer s h x (.uploadingMaster master) answer)
  | .uploadingMaster master => some (transfer s h x (.uploadingManifest master) answer)
  | .uploadingManifest master => some (transfer s h x (.finalizing master) answer)
  | .finalizing _ => some (finalize s h x)
  | .ingestFailing assetKnown => some (ingestFailed s h x assetKnown)
  | .cancelRead => some (cancelRead s h x)
  | .cancelWithout => some (cancelJob s h x)
  | .cancelSending runId => some (cancelSend s h x runId answer)
  | .cancelSent _ => some (cancelJob s h x)
  | .expiring => some (expireQuota s h x)
  | .deadLetter errorCode => some (failDeadLetter s h x errorCode)
  | .ended _ => none

/-- The handler registered for an event type. -/
def entryPoint : EventType → Point
  | .created => .submitClaim
  | .poll => .pollRead
  | .cancelRequested => .cancelRead
  | .quotaExpired => .expiring

/-- The lease was lost or the event is to be delivered again; it is marked done; or its attempts are
used up. -/
inductive Disposition where
  | keep
  | done
  | dead

def HandlerOutcome.failureCode : HandlerOutcome → Option String
  | .retryable code => some code
  | .unexpected => some "handler_unexpected_error"
  | _ => none

def setEvent (db : Db) (job : JobId) (type : EventType) (status : EventStatus) : Db :=
  { db with
    events := db.events.updateWhere (fun k e => k = (job, type) && e = .pending) fun _ _ => status }

def settle (s : State) (h : HandlerId) (x : Handler) (disposition : Disposition) : Option State :=
  let gone : State := { s with handlers := Function.update s.handlers h none }
  match x.point, disposition with
  | .ended _, .keep => some gone
  | .ended .returned, .done => some (gone.commit (setEvent s.db x.job x.type .done))
  | .ended outcome, .dead =>
    (HandlerOutcome.failureCode outcome).map fun code =>
      let dead := s.commit (setEvent s.db x.job x.type .dead)
      if x.type = .quotaExpired then { dead with handlers := Function.update s.handlers h none }
      else dead.goto h x (.deadLetter code)
  | _, _ => none

inductive Action where
  | tick (elapsed : Nat)
  | create (job : JobId) (owner : UserId) (outputKind : OutputKind)
      (outputSpec computeRequest : Json) (activeMember : Bool)
  | requestCancel (job : JobId)
  | softDelete (job : JobId) (retained : Bool)
  | schedule
  | deliver (h : HandlerId) (job : JobId) (type : EventType)
  | advance (h : HandlerId) (answer : Answer)
  | settle (h : HandlerId) (disposition : Disposition)
  | crash (h : HandlerId)

def step (cfg : Settings) (s : State) : Action → Option State
  | .tick elapsed => some { s with now := s.now + elapsed }
  | .create job owner outputKind outputSpec computeRequest activeMember =>
    create cfg s job owner outputKind outputSpec computeRequest activeMember
  | .requestCancel job => requestCancel s job
  | .softDelete job retained => (softDelete s.db job retained).map s.commit
  | .schedule => some (schedule s)
  | .deliver h job type =>
    if (s.handlers h).isNone && s.db.events.find? (job, type) = some .pending then
      some (s.goto h ⟨job, type, .pollRead⟩ (entryPoint type))
    else none
  | .advance h answer => (s.handlers h).bind fun x => advance cfg s h x answer
  | .settle h disposition => (s.handlers h).bind fun x => settle s h x disposition
  | .crash h =>
    if (s.handlers h).isSome then
      some { s with handlers := Function.update s.handlers h none }
    else none

/-- No job, no event and no handler. -/
def Init (s : State) : Prop :=
  s.db = ⟨.empty, .empty, .empty, .empty, []⟩ ∧ s.handlers = (fun _ => none) ∧ s.trace = []

end FractalStudio.Studio
