import FractalStudio.Studio.Worker

/-!
# What a worker step does

The inversion of `step`: which write each program point makes to the rows of its job,
where the handler goes next, and what it heard from Compute or told it. The properties
of the worker are proved from these and from what a write leaves as it is.
-/
namespace FractalStudio.Studio

open Outbox (HandlerOutcome)

/-! ## The writes -/

def terminate (db : Db) (j : JobId) (status : JobStatus) (errorCode : Option String)
    (reservation : ReservationStatus) : Db :=
  setReservation (setJobs db (db.jobs.modify j (.withStatus status errorCode))) j reservation

section Writes
variable {db db' : Db} {j : JobId} {expected : List JobStatus} {f : RenderJob → RenderJob}
  {row : RenderJob}

theorem jobStatus_eq (hrow : db.jobs.find? j = some row) : jobStatus db j = some row.status := by
  rw [jobStatus, hrow, Option.map_some]

theorem find?_modifyJob (hrow : db.jobs.find? j = some row) (f : RenderJob → RenderJob) :
    (setJobs db (db.jobs.modify j f)).jobs.find? j = some (f row) := by
  rw [setJobs, Table.find?_modify_self, hrow, Option.map_some]

theorem updateJob_eq_some (h : updateJob db j expected f = some db') :
    ∃ row, db.jobs.find? j = some row ∧ row.status ∈ expected ∧
      db' = setJobs db (db.jobs.modify j f) := by
  unfold updateJob jobStatus at h
  split at h
  · next hany =>
    obtain ⟨status, hstatus, hmem⟩ := (Option.any_eq_true _ _).mp hany
    obtain ⟨row, hrow, rfl⟩ := Option.map_eq_some_iff.mp hstatus
    exact ⟨row, hrow, of_decide_eq_true hmem, (Option.some.inj h).symm⟩
  · cases h

theorem saveRunIdIfCancelling_eq_some {runId : String}
    (h : saveRunIdIfCancelling db j runId = some db') :
    updateJob db j [.cancelRequested] (fun row => { row with computeRunId := some runId }) =
      some db' := by
  unfold saveRunIdIfCancelling at h
  split at h
  · exact h
  · cases h

theorem updateJob_of_find (hrow : db.jobs.find? j = some row)
    (hmem : row.status ∈ expected) :
    updateJob db j expected f = some (setJobs db (db.jobs.modify j f)) := by
  simp [updateJob, jobStatus, hrow, hmem]

theorem cancelAndRelease_eq_some (h : cancelAndRelease db j = some db') :
    ∃ row, db.jobs.find? j = some row ∧
      row.status ∈ [.queued, .submitting, .running, .cancelRequested] ∧
      db' = terminate db j .cancelled none .released := by
  obtain ⟨db₁, hset, rfl⟩ := Option.map_eq_some_iff.mp h
  obtain ⟨row, hrow, hmem, rfl⟩ := updateJob_eq_some hset
  exact ⟨row, hrow, hmem, rfl⟩

theorem failAndRelease_eq_some {code : String} (h : failAndRelease db j code = some db') :
    ∃ row, db.jobs.find? j = some row ∧
      (row.status ∈ [.queued, .submitting, .running, .computeSucceeded, .ingesting] ∧
          db' = terminate db j .failed (some code) .released ∨
        row.status = .cancelRequested ∧ db' = terminate db j .cancelled none .released) := by
  unfold failAndRelease at h
  cases hset : setStatus db j [.queued, .submitting, .running, .computeSucceeded, .ingesting]
      .failed (some code) with
  | some db₁ =>
    obtain ⟨row, hrow, hmem, rfl⟩ := updateJob_eq_some hset
    rw [hset] at h
    exact ⟨row, hrow, .inl ⟨hmem, (Option.some.inj h).symm⟩⟩
  | none =>
    rw [hset] at h
    obtain ⟨row, hrow, hmem, rfl⟩ := cancelAndRelease_eq_some h
    refine ⟨row, hrow, .inr ⟨?_, rfl⟩⟩
    by_contra hne
    have hin : row.status ∈
        [JobStatus.queued, .submitting, .running, .computeSucceeded, .ingesting] := by
      simp only [List.mem_cons, List.not_mem_nil, or_false] at hmem ⊢
      grind
    rw [setStatus, updateJob_of_find hrow hin] at hset
    cases hset

theorem terminal_of_failAndRelease_eq_none {code : String} (h : failAndRelease db j code = none)
    (hrow : db.jobs.find? j = some row) : row.status.isTerminal = true := by
  cases hstatus : row.status <;>
    simp [failAndRelease, cancelAndRelease, setStatus, updateJob, jobStatus, hrow, hstatus] at h <;>
    rfl

theorem expireReservation_eq_some {now : DateTime} (h : expireReservation db now j = some db') :
    ∃ row, db.jobs.find? j = some row ∧
      (row.status.isTerminal = true ∧ db' = releaseReservation db j ∨
        row.status = .cancelRequested ∧ db' = terminate db j .cancelled none .expired ∨
        row.status.isTerminal = false ∧ row.status ≠ .cancelRequested ∧
          db' = terminate db j .failed (some "quota_reservation_expired") .expired) := by
  unfold expireReservation at h
  split at h
  · next res row hres hrow =>
    refine ⟨row, hrow, ?_⟩
    split at h
    · cases h
    split at h
    · cases h
    split at h
    · next hterminal => exact .inl ⟨hterminal, (Option.some.inj h).symm⟩
    · next hterminal =>
      by_cases hcancel : row.status = .cancelRequested
      · rw [if_pos hcancel] at h
        exact .inr (.inl ⟨hcancel, (Option.some.inj h).symm⟩)
      · rw [if_neg hcancel] at h
        exact .inr (.inr ⟨Bool.eq_false_iff.mpr hterminal, hcancel, (Option.some.inj h).symm⟩)
  · cases h

theorem completeJob_eq_some (h : completeJob db j = some db') :
    ∃ row, db.jobs.find? j = some row ∧ row.status ∈ [.ingesting, .computeSucceeded] ∧
      db' = terminate db j .completed none .released := by
  obtain ⟨db₁, hset, rfl⟩ := Option.map_eq_some_iff.mp h
  obtain ⟨row, hrow, hmem, rfl⟩ := updateJob_eq_some hset
  exact ⟨row, hrow, hmem, rfl⟩

theorem completeJob_of_find (hrow : db.jobs.find? j = some row)
    (hmem : row.status ∈ [JobStatus.ingesting, .computeSucceeded]) :
    completeJob db j = some (terminate db j .completed none .released) := by
  rw [completeJob, setStatus, updateJob_of_find hrow hmem]
  rfl

theorem jobs_createOrGetProcessing (db : Db) (j : JobId) (row : RenderJob) :
    (createOrGetProcessing db j row).jobs = db.jobs := rfl

theorem jobs_recordFile (db : Db) (j : JobId) (purpose : FilePurpose) :
    (recordFile db j purpose).jobs = db.jobs := by
  unfold recordFile
  split <;> rfl

theorem jobs_finalizeIngestion (db : Db) (j : JobId) :
    (finalizeIngestion db j).jobs = db.jobs := by
  rw [finalizeIngestion, jobs_recordFile]
  exact jobs_recordFile db j .master

theorem find?_terminate (hrow : db.jobs.find? j = some row) (status : JobStatus)
    (code : Option String) (res : ReservationStatus) :
    (terminate db j status code res).jobs.find? j = some (row.withStatus status code) :=
  find?_modifyJob hrow _

theorem softDelete_eq_some {retained : Bool} (h : softDelete db j retained = some db') :
    ∃ a, db.assets.find? j = some a ∧ (a.status = .ready ∨ a.status = .failed) ∧
      db' = setAssets db (db.assets.modify j fun a =>
        { a with status := .deleted, files := if retained then a.files else [] }) := by
  unfold softDelete at h
  split at h
  · next a ha =>
    split at h
    · next hstatus => exact ⟨a, ha, hstatus, (Option.some.inj h).symm⟩
    · cases h
  · cases h

end Writes

/-! ## What a write leaves as it is -/

/-- Only rows of the job differ, and no user holds more units than before. -/
structure Touches (j : JobId) (db db' : Db) : Prop where
  jobs : ∀ i, i ≠ j → db'.jobs.find? i = db.jobs.find? i
  reservations : ∀ i, i ≠ j → db'.reservations.find? i = db.reservations.find? i
  assets : ∀ i, i ≠ j → db'.assets.find? i = db.assets.find? i
  recorded : ∀ i p, i ≠ j → ((i, p) ∈ db'.recorded ↔ (i, p) ∈ db.recorded)
  units : ∀ user, reservedUnits db' user ≤ reservedUnits db user

namespace Touches
variable {j : JobId} {db db₁ db₂ : Db}

theorem refl (j : JobId) (db : Db) : Touches j db db where
  jobs _ _ := rfl
  reservations _ _ := rfl
  assets _ _ := rfl
  recorded _ _ _ := Iff.rfl
  units _ := le_refl _

theorem trans (h₁ : Touches j db db₁) (h₂ : Touches j db₁ db₂) : Touches j db db₂ where
  jobs i hi := (h₂.jobs i hi).trans (h₁.jobs i hi)
  reservations i hi := (h₂.reservations i hi).trans (h₁.reservations i hi)
  assets i hi := (h₂.assets i hi).trans (h₁.assets i hi)
  recorded i p hi := (h₂.recorded i p hi).trans (h₁.recorded i p hi)
  units user := (h₂.units user).trans (h₁.units user)

theorem modifyJob (j : JobId) (db : Db) (f : RenderJob → RenderJob) :
    Touches j db (setJobs db (db.jobs.modify j f)) :=
  { Touches.refl j db with jobs := fun _ hi => Table.find?_modify_ne _ _ hi }

theorem appendEvent (j : JobId) (db : Db) (i : JobId) (type : EventType) :
    Touches j db (appendEvent db i type) :=
  { Touches.refl j db with }

theorem setReservation (j : JobId) (db : Db) (status : ReservationStatus) :
    Touches j db (setReservation db j status) where
  jobs _ _ := rfl
  assets _ _ := rfl
  recorded _ _ _ := Iff.rfl
  reservations i hi := by
    simp [Studio.setReservation, Table.find?_updateWhere, hi]
  units user := by
    simp only [Studio.reservedUnits, Studio.setReservation]
    apply Table.sum_updateWhere_le
    intro i res _ hp
    have hheld : res.status = .reserved := by simp_all
    simp only [Reservation.reservedUnits, hheld]
    split <;> split <;> simp_all

theorem terminate (j : JobId) (db : Db) (status : JobStatus) (code : Option String)
    (res : ReservationStatus) : Touches j db (terminate db j status code res) :=
  (modifyJob j db _).trans (.setReservation j _ res)

theorem insertAsset (j : JobId) (db : Db) (a : Asset) :
    Touches j db (setAssets db (db.assets.insertIfAbsent j a)) :=
  { Touches.refl j db with
    assets := fun i hi => by simp [setAssets, Table.find?_insertIfAbsent, hi] }

theorem modifyAsset (j : JobId) (db : Db) (f : Asset → Asset) :
    Touches j db (setAssets db (db.assets.modify j f)) :=
  { Touches.refl j db with assets := fun _ hi => Table.find?_modify_ne _ _ hi }

theorem markIfKnown (j : JobId) (db : Db) (assetKnown : Bool) :
    Touches j db (if assetKnown then markFailed db j else db) := by
  split
  · exact modifyAsset j db _
  · exact refl j db

theorem recordFile (j : JobId) (db : Db) (purpose : FilePurpose) :
    Touches j db (recordFile db j purpose) := by
  unfold Studio.recordFile
  split
  · exact { Touches.refl j db with
      assets := fun _ hi => Table.find?_modify_ne _ _ hi
      recorded := fun i p hi => by simp [hi] }
  · exact .refl j db

theorem finalizeIngestion (j : JobId) (db : Db) : Touches j db (finalizeIngestion db j) :=
  ((recordFile j db .master).trans (modifyAsset j _ _)).trans (recordFile j _ .renderManifest)

theorem updateJob {expected : List JobStatus} {f : RenderJob → RenderJob}
    (h : updateJob db j expected f = some db₁) : Touches j db db₁ := by
  obtain ⟨row, -, -, rfl⟩ := updateJob_eq_some h
  exact modifyJob j db f

theorem cancelAndRelease (h : cancelAndRelease db j = some db₁) : Touches j db db₁ := by
  obtain ⟨row, -, -, rfl⟩ := cancelAndRelease_eq_some h
  exact terminate j db _ _ _

theorem failAndRelease {code : String} (h : failAndRelease db j code = some db₁) :
    Touches j db db₁ := by
  obtain ⟨row, -, ⟨-, rfl⟩ | ⟨-, rfl⟩⟩ := failAndRelease_eq_some h <;> exact terminate j db _ _ _

theorem completeJob (h : completeJob db j = some db₁) : Touches j db db₁ := by
  obtain ⟨row, -, -, rfl⟩ := completeJob_eq_some h
  exact terminate j db _ _ _

theorem expireReservation {now : DateTime} (h : expireReservation db now j = some db₁) :
    Touches j db db₁ := by
  obtain ⟨row, -, ⟨-, rfl⟩ | ⟨-, rfl⟩ | ⟨-, -, rfl⟩⟩ := expireReservation_eq_some h
  · exact setReservation j db .released
  · exact terminate j db _ _ _
  · exact terminate j db _ _ _

end Touches

/-! ## The program points -/

/-- The result that the poll handler builds from a manifest. -/
def acceptedResult (outputSpec : Json) (manifest : ComputeRunStatus) : ComputeResult :=
  ⟨manifest.runId, manifest.status, selectArtifacts outputSpec manifest.artifacts⟩

/-- The points whose handler cancels its job next, whatever the row says. -/
def Point.isCancelling : Point → Bool
  | .pollCancelling | .cancelWithout | .cancelSent _ => true
  | _ => false

/-- The points between the two transactions of an ingestion. -/
def Point.isTransferring : Point → Bool
  | .downloading _ | .uploadingMaster _ | .uploadingManifest _ => true
  | _ => false

def Point.isIngesting : Point → Bool
  | .finalizing _ => true
  | p => p.isTransferring

/-- What a handler of the job `j` does from its point: the tables after it, the next
point, and the new entries of the trace. -/
inductive Effect (now : DateTime) (j : JobId) (answer : Answer) (db : Db) :
    Point → Db → Point → List ComputeTrace → Prop
  | ended (p : Point) (outcome : HandlerOutcome) : Effect now j answer db p db (.ended outcome) []
  | claimed {row : RenderJob} {db' : Db} : db.jobs.find? j = some row → row.status = .queued →
      setStatus db j [.queued] .submitting none = some db' →
      Effect now j answer db .submitClaim db' (.creating row.computeRequest) []
  | reclaimed {row : RenderJob} : db.jobs.find? j = some row → row.status = .submitting →
      Effect now j answer db .submitClaim db (.creating row.computeRequest) []
  | claimCancelled {db' : Db} : jobStatus db j = some .cancelRequested →
      cancelAndRelease db j = some db' →
      Effect now j answer db .submitClaim db' (.ended .returned) []
  | refused (request : Json) (code : String) :
      (requestValid request = false ∨ ∃ e, answer = .error e ∧ e ∉ retryableCreateErrors) →
      Effect now j answer db (.creating request) db (.failing code) []
  | returned {run : ComputeRunStatus} (request : Json) : answer = .ok run →
      Effect now j answer db (.creating request) db (.savingRun run.runId)
        [.returned j run.runId]
  | submitted {runId : String} {db' : Db} : saveSubmission db j runId = some db' →
      Effect now j answer db (.savingRun runId) (appendEvent db' j .poll) (.ended .returned) []
  | savedLate {runId : String} {db' : Db} : saveRunIdIfCancelling db j runId = some db' →
      Effect now j answer db (.savingRun runId) db' (.ended .returned) []
  | failed {code : String} {db' : Db} : failAndRelease db j code = some db' →
      Effect now j answer db (.failing code) db' (.ended .returned) []
  | ingestible : jobStatus db j = some .computeSucceeded →
      Effect now j answer db .pollRead db .ingestClaim []
  | polled {row : RenderJob} {runId : String} : db.jobs.find? j = some row →
      row.status = .running → row.computeRunId = some runId →
      Effect now j answer db .pollRead db (.polling runId row.outputSpec) []
  | waiting {percent : Int} (runId : String) (outputSpec : Json) : percent ≤ 100 →
      Effect now j answer db (.polling runId outputSpec) db (.progressing percent) []
  | stopped {run : ComputeRunStatus} {p : Point} (runId : String) (outputSpec : Json) :
      answer = .ok run → inProgress run.status = false → run.status ≠ "completed" →
      (p = .pollCancelling ∨ ∃ code, p = .failing code) →
      Effect now j answer db (.polling runId outputSpec) db p [.observed j runId]
  | completed (runId : String) (outputSpec : Json) :
      Effect now j answer db (.polling runId outputSpec) db (.fetching runId outputSpec)
        [.observed j runId]
  | progressed {percent : Int} {db' : Db} (outcome : HandlerOutcome) :
      updateProgress db j percent = some db' →
      Effect now j answer db (.progressing percent) db' (.ended outcome) []
  | cancelled {p : Point} {db' : Db} : p.isCancelling = true → cancelAndRelease db j = some db' →
      Effect now j answer db p db' (.ended .returned) []
  | rejected {manifest : ComputeRunStatus} (runId : String) (outputSpec : Json) (code : String) :
      answer = .ok manifest →
      (manifest.runId ≠ runId ∨ manifest.status ≠ "completed" ∨
        selectArtifacts outputSpec manifest.artifacts = []) →
      Effect now j answer db (.fetching runId outputSpec) db (.failing code) []
  | accepted {manifest : ComputeRunStatus} (runId : String) (outputSpec : Json) :
      answer = .ok manifest →
      Effect now j answer db (.fetching runId outputSpec) db
        (.succeeding (acceptedResult outputSpec manifest)
          ((selectArtifacts outputSpec manifest.artifacts).map ComputeArtifact.artifactId)) []
  | succeeded {result : ComputeResult} {selected : List String} {db' : Db} :
      saveComputeSuccess db j result selected = some db' →
      Effect now j answer db (.succeeding result selected) db' .ingestClaim []
  | unready {row : RenderJob} : db.jobs.find? j = some row → row.status ≠ .completed →
      row.status ≠ .computeSucceeded →
      Effect now j answer db .ingestClaim db (.ingestFailing false) []
  | alreadyReady {row : RenderJob} {db' : Db} : db.jobs.find? j = some row →
      row.status = .computeSucceeded →
      ((createOrGetProcessing db j row).assets.find? j).any (·.status = .ready) = true →
      completeJob (createOrGetProcessing db j row) j = some db' →
      Effect now j answer db .ingestClaim db' (.ended .returned) []
  | unfit {row : RenderJob} {e : String} : db.jobs.find? j = some row →
      row.status = .computeSucceeded →
      masterMetadata row.computeResult row.selectedArtifactIds = .error e →
      Effect now j answer db .ingestClaim db (.ingestFailing true) []
  | ingesting {row : RenderJob} {db' : Db} (master : Master) : db.jobs.find? j = some row →
      row.status = .computeSucceeded →
      setStatus (createOrGetProcessing db j row) j [.computeSucceeded] .ingesting none = some db' →
      Effect now j answer db .ingestClaim db' (.downloading master) []
  | transferred {p q : Point} : p.isTransferring = true → q.isIngesting = true →
      Effect now j answer db p db q []
  | transferFailed {p : Point} {e : String} : p.isTransferring = true → answer = .error e →
      Effect now j answer db p db (.ingestFailing true) []
  | finalized {db' : Db} (master : Master) : completeJob (finalizeIngestion db j) j = some db' →
      Effect now j answer db (.finalizing master) db' (.ended .returned) []
  | unfinalizable (master : Master) : jobStatus db j ≠ some .ingesting →
      Effect now j answer db (.finalizing master) db (.ingestFailing true) []
  | ingestFailed {db₁ db' : Db} (assetKnown : Bool) :
      db₁ = (if assetKnown then markFailed db j else db) →
      failAndRelease db₁ j "asset_ingestion_failed" = some db' →
      Effect now j answer db (.ingestFailing assetKnown) db' (.ended .unexpected) []
  | ingestFailedLate {db₁ : Db} (assetKnown : Bool) :
      db₁ = (if assetKnown then markFailed db j else db) →
      failAndRelease db₁ j "asset_ingestion_failed" = none →
      Effect now j answer db (.ingestFailing assetKnown) db₁ (.ended .unexpected) []
  | unsubmitted {row : RenderJob} : db.jobs.find? j = some row → row.status = .cancelRequested →
      row.computeRunId.filter (· ≠ "") = none →
      Effect now j answer db .cancelRead db .cancelWithout []
  | forwarding {row : RenderJob} {runId : String} : db.jobs.find? j = some row →
      row.status = .cancelRequested → row.computeRunId = some runId →
      Effect now j answer db .cancelRead db (.cancelSending runId) []
  | sent (runId : String) : Effect now j answer db (.cancelSending runId) db (.cancelSent runId)
      [.sent j runId]
  | unsent (runId : String) (outcome : HandlerOutcome) :
      Effect now j answer db (.cancelSending runId) db (.ended outcome) [.sent j runId]
  | expired {db' : Db} : expireReservation db now j = some db' →
      Effect now j answer db .expiring db' (.ended .returned) []
  | deadLettered {code code' : String} {db' : Db} : failAndRelease db j code' = some db' →
      Effect now j answer db (.deadLetter code) db' (.ended .returned) []

theorem Effect.touches {now : DateTime} {j : JobId} {answer : Answer} {db db' : Db} {p q : Point}
    {heard : List ComputeTrace} (he : Effect now j answer db p db' q heard) : Touches j db db' := by
  cases he
  case claimed hset => exact .updateJob hset
  case claimCancelled hcancel => exact .cancelAndRelease hcancel
  case submitted hsaved => exact (Touches.updateJob hsaved).trans (.appendEvent j _ j .poll)
  case savedLate hsaved => exact .updateJob (saveRunIdIfCancelling_eq_some hsaved)
  case failed hfail => exact .failAndRelease hfail
  case progressed hsaved => exact .updateJob hsaved
  case cancelled hcancel => exact .cancelAndRelease hcancel
  case succeeded hsaved => exact .updateJob hsaved
  case alreadyReady hdone => exact (Touches.insertAsset j db _).trans (.completeJob hdone)
  case ingesting hset => exact (Touches.insertAsset j db _).trans (.updateJob hset)
  case finalized hdone => exact (Touches.finalizeIngestion j db).trans (.completeJob hdone)
  case ingestFailed assetKnown hmark hfail =>
    subst hmark
    exact (Touches.markIfKnown j db assetKnown).trans (.failAndRelease hfail)
  case ingestFailedLate assetKnown hmark _ =>
    subst hmark
    exact .markIfKnown j db assetKnown
  case expired hexpire => exact .expireReservation hexpire
  case deadLettered hfail => exact .failAndRelease hfail
  all_goals exact .refl j db

def State.moved (s : State) (h : HandlerId) (x : Handler) (db' : Db) (q : Point)
    (heard : List ComputeTrace) : State :=
  ⟨db', s.now, Function.update s.handlers h (some { x with point := q }), s.trace ++ heard⟩

def Advanced (answer : Answer) (s s' : State) (h : HandlerId) (x : Handler) (p : Point) : Prop :=
  ∃ db' q heard, s' = s.moved h x db' q heard ∧ Effect s.now x.job answer s.db p db' q heard

section Inversion
variable {answer : Answer} {s s' : State} {h : HandlerId} {x : Handler} {p q : Point} {db' : Db}
  {outcome : HandlerOutcome}

theorem advanced_goto (he : Effect s.now x.job answer s.db p s.db q []) :
    Advanced answer s (s.goto h x q) h x p :=
  ⟨s.db, q, [], by simp [State.moved, State.goto], he⟩

theorem advanced_commit (he : Effect s.now x.job answer s.db p db' q []) :
    Advanced answer s ((s.commit db').goto h x q) h x p :=
  ⟨db', q, [], by simp [State.moved, State.goto, State.commit], he⟩

theorem advanced_note {entry : ComputeTrace}
    (he : Effect s.now x.job answer s.db p s.db q [entry]) :
    Advanced answer s ((s.note entry).goto h x q) h x p :=
  ⟨s.db, q, [entry], rfl, he⟩

theorem advanced_finish : Advanced answer s (s.finish h x outcome) h x p :=
  advanced_goto (.ended p outcome)

theorem advanced_tryCommit {db' : Option Db}
    (he : ∀ d, db' = some d → Effect s.now x.job answer s.db p d (.ended outcome) []) :
    Advanced answer s ((s.tryCommit db').finish h x outcome) h x p := by
  cases hd : db' with
  | none => exact advanced_commit (.ended p outcome)
  | some d => exact advanced_commit (he d hd)

theorem submitClaim_advanced : Advanced answer s (submitClaim s h x) h x .submitClaim := by
  unfold submitClaim
  split
  · exact advanced_finish
  · next row hrow =>
    split
    · exact advanced_finish
    split
    · next hcancel =>
      exact advanced_tryCommit fun d hd =>
        .claimCancelled (hcancel ▸ jobStatus_eq hrow) hd
    split
    · next hqueued =>
      have hset := updateJob_of_find (f := .withStatus .submitting none) hrow
        (List.mem_singleton.mpr hqueued)
      rw [setStatus, hset]
      exact advanced_commit (.claimed hrow hqueued hset)
    split
    · next hsubmitting => exact advanced_goto (.reclaimed hrow hsubmitting)
    · exact advanced_finish

theorem createRun_advanced (request : Json) :
    Advanced answer s (createRun s h x request answer) h x (.creating request) := by
  unfold createRun
  split
  · next hvalid => exact advanced_goto (.refused request _ (.inl (by simpa using hvalid)))
  split
  · split
    · exact advanced_finish
    · next code hcode => exact advanced_goto (.refused request _ (.inr ⟨code, rfl, hcode⟩))
  · next run => exact advanced_note (.returned request rfl)

theorem saveRun_advanced (runId : String) :
    Advanced answer s (saveRun s h x runId) h x (.savingRun runId) := by
  unfold saveRun
  split
  · exact advanced_finish
  split
  · split
    · split
      · next hsaved => exact advanced_commit (.submitted hsaved)
      · exact advanced_finish
    · exact advanced_finish
  split
  · split
    · exact advanced_tryCommit fun d hd => .savedLate hd
    · exact advanced_finish
  · exact advanced_finish

theorem failJob_advanced (code : String) :
    Advanced answer s (failJob s h x code) h x (.failing code) := by
  unfold failJob
  split
  · exact advanced_finish
  · exact advanced_tryCommit fun d hd => .failed hd

theorem pollRead_advanced : Advanced answer s (pollRead s h x) h x .pollRead := by
  unfold pollRead
  split
  · exact advanced_finish
  · next row hrow =>
    split
    · exact advanced_finish
    split
    · next hdone =>
      exact advanced_goto (.ingestible (hdone ▸ jobStatus_eq hrow))
    split
    · exact advanced_finish
    split
    · next runId hrun =>
      split
      · next hrunning =>
        exact advanced_goto (.polled hrow hrunning (Option.eq_some_of_filter_eq_some hrun))
      · exact advanced_finish
    · exact advanced_finish

theorem pollAnswered_advanced (runId : String) (outputSpec : Json) :
    Advanced answer s (pollAnswered s h x runId outputSpec answer) h x
      (.polling runId outputSpec) := by
  unfold pollAnswered
  split
  · exact advanced_finish
  · next run =>
    split
    · exact advanced_goto (.waiting runId outputSpec (by omega))
    · next hfinal =>
      have hfinal' := Bool.eq_false_iff.mpr hfinal
      dsimp only
      split
      · next hstatus =>
        exact advanced_note (.stopped runId outputSpec rfl hfinal' (by simp [hstatus]) (.inl rfl))
      split
      · next hstatus =>
        exact advanced_note
          (.stopped runId outputSpec rfl hfinal' (by simp [hstatus]) (.inr ⟨_, rfl⟩))
      split
      · next hstatus =>
        exact advanced_note (.stopped runId outputSpec rfl hfinal' hstatus (.inr ⟨_, rfl⟩))
      · exact advanced_note (.completed runId outputSpec)

theorem saveProgress_advanced (cfg : Settings) (percent : Int) :
    Advanced answer s (saveProgress cfg s h x percent) h x (.progressing percent) :=
  advanced_tryCommit fun _ hd => .progressed _ hd

theorem cancelJob_advanced (hp : p.isCancelling = true) :
    Advanced answer s (cancelJob s h x) h x p :=
  advanced_tryCommit fun _ hd => .cancelled hp hd

theorem manifestAnswered_advanced (runId : String) (outputSpec : Json) :
    Advanced answer s (manifestAnswered s h x runId outputSpec answer) h x
      (.fetching runId outputSpec) := by
  unfold manifestAnswered
  split
  · exact advanced_finish
  · next manifest =>
    split
    · next hbad => exact advanced_goto (.rejected runId outputSpec _ rfl (by tauto))
    split
    · next hnone => exact advanced_goto (.rejected runId outputSpec _ rfl (.inr (.inr hnone)))
    · exact advanced_goto (.accepted runId outputSpec rfl)

theorem saveSuccess_advanced (result : ComputeResult) (selected : List String) :
    Advanced answer s (saveSuccess s h x result selected) h x (.succeeding result selected) := by
  unfold saveSuccess
  split
  · next hsaved => exact advanced_commit (.succeeded hsaved)
  · exact advanced_finish

theorem ingestClaim_advanced : Advanced answer s (ingestClaim s h x) h x .ingestClaim := by
  unfold ingestClaim
  split
  · exact advanced_finish
  · next row hrow =>
    split
    · exact advanced_finish
    · next hopen =>
      split
      · next hunready => exact advanced_goto (.unready hrow hopen hunready)
      · next hready =>
        have hstatus : row.status = .computeSucceeded := not_not.mp hready
        dsimp only
        split
        · next hasset =>
          have hrow' : (createOrGetProcessing s.db x.job row).jobs.find? x.job = some row := hrow
          have hdone := completeJob_of_find hrow' (by simp [hstatus])
          rw [hdone]
          exact advanced_commit (.alreadyReady hrow hstatus hasset hdone)
        split
        · next e hunfit => exact advanced_goto (.unfit hrow hstatus hunfit)
        · next master _ =>
          have hrow' : (createOrGetProcessing s.db x.job row).jobs.find? x.job = some row := hrow
          have hset := updateJob_of_find (f := .withStatus .ingesting none) hrow'
            (List.mem_singleton.mpr hstatus)
          rw [setStatus, hset]
          exact advanced_commit (.ingesting master hrow hstatus hset)

theorem transfer_advanced (hp : p.isTransferring = true) (hq : q.isIngesting = true) :
    Advanced answer s (transfer s h x q answer) h x p := by
  unfold transfer
  split
  · exact advanced_goto (.transferred hp hq)
  · exact advanced_goto (.transferFailed hp rfl)

theorem finalize_advanced (master : Master) :
    Advanced answer s (finalize s h x) h x (.finalizing master) := by
  unfold finalize
  split
  · next hany =>
    dsimp only
    obtain ⟨status, hstatus, hmem⟩ := (Option.any_eq_true _ _).mp hany
    obtain ⟨row, hrow, rfl⟩ := Option.map_eq_some_iff.mp hstatus
    rw [← jobs_finalizeIngestion s.db x.job] at hrow
    have hdone := completeJob_of_find hrow (of_decide_eq_true hmem)
    rw [hdone]
    exact advanced_commit (.finalized master hdone)
  · next hany =>
    refine advanced_goto (.unfinalizable master fun hstatus => hany ?_)
    rw [hstatus]
    rfl

theorem ingestFailed_advanced (assetKnown : Bool) :
    Advanced answer s (ingestFailed s h x assetKnown) h x (.ingestFailing assetKnown) := by
  unfold ingestFailed
  dsimp only
  split
  · next hknown =>
    cases hd : failAndRelease (markFailed s.db x.job) x.job "asset_ingestion_failed" with
    | some d => exact advanced_commit (.ingestFailed assetKnown (if_pos hknown).symm hd)
    | none => exact advanced_commit (.ingestFailedLate assetKnown (if_pos hknown).symm hd)
  · next hknown =>
    cases hd : failAndRelease s.db x.job "asset_ingestion_failed" with
    | some d => exact advanced_commit (.ingestFailed assetKnown (if_neg hknown).symm hd)
    | none => exact advanced_commit (.ingestFailedLate assetKnown (if_neg hknown).symm hd)

theorem cancelRead_advanced : Advanced answer s (cancelRead s h x) h x .cancelRead := by
  unfold cancelRead
  split
  · exact advanced_finish
  · next row hrow =>
    split
    · exact advanced_finish
    · next hcancel =>
      have hstatus : row.status = .cancelRequested := not_not.mp hcancel
      split
      · next hnone => exact advanced_goto (.unsubmitted hrow hstatus hnone)
      · next runId hrun =>
        exact advanced_goto (.forwarding hrow hstatus (Option.eq_some_of_filter_eq_some hrun))

theorem cancelSend_advanced (runId : String) :
    Advanced answer s (cancelSend s h x runId answer) h x (.cancelSending runId) := by
  unfold cancelSend
  dsimp only
  split
  · exact advanced_note (.unsent runId _)
  · exact advanced_note (.sent runId)

theorem expireQuota_advanced : Advanced answer s (expireQuota s h x) h x .expiring :=
  advanced_tryCommit fun _ hd => .expired hd

theorem failDeadLetter_advanced (code : String) :
    Advanced answer s (failDeadLetter s h x code) h x (.deadLetter code) :=
  advanced_tryCommit fun _ hd => .deadLettered hd

theorem effect_of_advance {cfg : Settings} (hstep : advance cfg s h x answer = some s') :
    Advanced answer s s' h x x.point := by
  unfold advance at hstep
  cases hp : x.point <;> rw [hp] at hstep <;> try obtain rfl := Option.some.inj hstep
  case submitClaim => exact submitClaim_advanced
  case creating request => exact createRun_advanced request
  case savingRun runId => exact saveRun_advanced runId
  case failing code => exact failJob_advanced code
  case pollRead => exact pollRead_advanced
  case polling runId outputSpec => exact pollAnswered_advanced runId outputSpec
  case progressing percent => exact saveProgress_advanced cfg percent
  case pollCancelling => exact cancelJob_advanced rfl
  case fetching runId outputSpec => exact manifestAnswered_advanced runId outputSpec
  case succeeding result selected => exact saveSuccess_advanced result selected
  case ingestClaim => exact ingestClaim_advanced
  case downloading => exact transfer_advanced rfl rfl
  case uploadingMaster => exact transfer_advanced rfl rfl
  case uploadingManifest => exact transfer_advanced rfl rfl
  case finalizing master => exact finalize_advanced master
  case ingestFailing assetKnown => exact ingestFailed_advanced assetKnown
  case cancelRead => exact cancelRead_advanced
  case cancelWithout => exact cancelJob_advanced rfl
  case cancelSending runId => exact cancelSend_advanced runId
  case cancelSent => exact cancelJob_advanced rfl
  case expiring => exact expireQuota_advanced
  case deadLetter code => exact failDeadLetter_advanced code
  case ended => cases hstep

end Inversion

/-! ## The system -/

/-- A handler that has just been started: by a delivery or for a dead letter. -/
def Point.isEntry (p : Point) : Prop := (∃ type, p = entryPoint type) ∨ ∃ code, p = .deadLetter code

/-- What a step of the system does. The idle ones write at most to the outbox, and start
or drop a handler. -/
inductive Moved (cfg : Settings) (s : State) : Action → State → Prop
  | idle {a : Action} (events : Table (JobId × EventType) EventStatus) (now : DateTime)
      {handlers : HandlerId → Option Handler} :
      (∀ h x, handlers h = some x → s.handlers h = some x ∨ x.point.isEntry) →
      Moved cfg s a ⟨{ s.db with events }, now, handlers, s.trace⟩
  | created {job : JobId} {owner : UserId} {outputKind : OutputKind}
      {outputSpec computeRequest : Json} {activeMember : Bool} {jobs : Table JobId RenderJob}
      {db : Db} :
      s.db.jobs.insert? job (newJob owner outputKind outputSpec computeRequest) = some jobs →
      reserve cfg (setJobs s.db jobs) s.now owner job outputKind activeMember = .ok db →
      Moved cfg s (.create job owner outputKind outputSpec computeRequest activeMember)
        (s.commit (appendEvent db job .created))
  | cancelRequested {job : JobId} {db : Db} :
      setStatus s.db job [.queued, .submitting, .running] .cancelRequested none = some db →
      Moved cfg s (.requestCancel job) (s.commit (appendEvent db job .cancelRequested))
  | deleted {job : JobId} {retained : Bool} {db : Db} : softDelete s.db job retained = some db →
      Moved cfg s (.softDelete job retained) (s.commit db)
  | advanced {h : HandlerId} {x : Handler} {answer : Answer} {db' : Db} {q : Point}
      {heard : List ComputeTrace} : s.handlers h = some x →
      Effect s.now x.job answer s.db x.point db' q heard →
      Moved cfg s (.advance h answer) (s.moved h x db' q heard)

section System
variable {cfg : Settings} {s s' : State} {a : Action}

theorem update_eq_some {handlers : HandlerId → Option Handler} {h k : HandlerId}
    {next : Option Handler} {y : Handler} (hy : Function.update handlers h next k = some y) :
    next = some y ∨ handlers k = some y := by
  rw [Function.update_apply] at hy
  split at hy
  · exact .inl hy
  · exact .inr hy

theorem schedule_events (jobs : List JobId) (db : Db) : ∃ events,
    jobs.foldl (fun db job => appendEvent db job .quotaExpired) db = { db with events } := by
  induction jobs generalizing db with
  | nil => exact ⟨db.events, rfl⟩
  | cons job jobs ih => exact ih (appendEvent db job .quotaExpired)

theorem moved_create {job : JobId} {owner : UserId} {outputKind : OutputKind}
    {outputSpec computeRequest : Json} {activeMember : Bool}
    (h : create cfg s job owner outputKind outputSpec computeRequest activeMember = some s') :
    Moved cfg s (.create job owner outputKind outputSpec computeRequest activeMember) s' := by
  obtain ⟨jobs, hjobs, h⟩ := Option.bind_eq_some_iff.mp h
  split at h
  · next db hreserve =>
    obtain rfl := Option.some.inj h
    exact .created hjobs hreserve
  · cases h

theorem moved_settle {h : HandlerId} {x : Handler} {disposition : Disposition}
    (hs : settle s h x disposition = some s') :
    Moved cfg s (.settle h disposition) s' := by
  have hgone : ∀ k y, Function.update s.handlers h none k = some y →
      s.handlers k = some y ∨ y.point.isEntry := by
    intro k y hy
    exact .inl ((update_eq_some hy).resolve_left fun h => by cases h)
  unfold settle at hs
  dsimp only at hs
  split at hs
  · obtain rfl := Option.some.inj hs
    exact .idle s.db.events s.now hgone
  · obtain rfl := Option.some.inj hs
    exact .idle _ s.now hgone
  · obtain ⟨code, -, rfl⟩ := Option.map_eq_some_iff.mp hs
    split
    · exact .idle _ s.now hgone
    · refine .idle _ s.now fun k y hy => ?_
      obtain hnew | hold := update_eq_some hy
      · obtain rfl := Option.some.inj hnew
        exact .inr (.inr ⟨code, rfl⟩)
      · exact .inl hold
  · cases hs

/-- Everything a step can do to the database. -/
theorem moved_of_step (h : step cfg s a = some s') : Moved cfg s a s' := by
  cases a with
  | tick elapsed =>
    obtain rfl := Option.some.inj h
    exact .idle s.db.events _ fun _ _ hy => .inl hy
  | create job owner outputKind outputSpec computeRequest activeMember => exact moved_create h
  | requestCancel job =>
    obtain ⟨db, hset, rfl⟩ := Option.map_eq_some_iff.mp h
    exact .cancelRequested hset
  | softDelete job retained =>
    obtain ⟨db, hdel, rfl⟩ := Option.map_eq_some_iff.mp h
    exact .deleted hdel
  | schedule =>
    obtain rfl := Option.some.inj h
    obtain ⟨events, hevents⟩ := schedule_events (expiredReservationJobs s.db s.now) s.db
    rw [schedule, hevents]
    exact .idle events s.now fun _ _ hy => .inl hy
  | deliver k job type =>
    simp only [step] at h
    split at h
    · obtain rfl := Option.some.inj h
      refine .idle s.db.events s.now fun i y hy => ?_
      obtain hnew | hold := update_eq_some hy
      · obtain rfl := Option.some.inj hnew
        exact .inr (.inl ⟨type, rfl⟩)
      · exact .inl hold
    · cases h
  | advance k answer =>
    obtain ⟨x, hx, hadv⟩ := Option.bind_eq_some_iff.mp h
    obtain ⟨db', q, heard, rfl, he⟩ := effect_of_advance hadv
    exact .advanced hx he
  | settle k disposition =>
    obtain ⟨x, -, hs⟩ := Option.bind_eq_some_iff.mp h
    exact moved_settle hs
  | crash k =>
    simp only [step] at h
    split at h
    · obtain rfl := Option.some.inj h
      refine .idle s.db.events s.now fun i y hy => ?_
      exact .inl ((update_eq_some hy).resolve_left fun h => by cases h)
    · cases h

theorem reserve_eq_ok {db db' : Db} {now : DateTime} {owner : UserId} {job : JobId}
    {outputKind : OutputKind} {activeMember : Bool}
    (h : reserve cfg db now owner job outputKind activeMember = .ok db') :
    reservedUnits db owner < cfg.renderQuotaMaxActive ∧ ∃ reservations,
      db.reservations.insert? job (newReservation owner now) = some reservations ∧
        db' = { db with reservations } := by
  unfold reserve at h
  split at h
  · cases h
  split at h
  · cases h
  · next hfree =>
    split at h
    · next reservations hinsert =>
      exact ⟨Nat.lt_of_not_le hfree, reservations, hinsert, (Except.ok.inj h).symm⟩
    · cases h

end System
end FractalStudio.Studio
