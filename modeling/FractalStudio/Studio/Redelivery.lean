import FractalStudio.Studio.QuotaConsistency

/-!
# Repeated and overlapping deliveries of one render job

Two deliveries of a poll event may run at a time. Once Compute has completed the run, the job goes
through the stages below and never back. A delivery that reaches the ingestion while another one is
in progress fails the job, and so does a dead letter; with neither, no delivery does.
-/
namespace FractalStudio.Studio

open Transition

def validManifest (runId : String) (outputSpec : Json) (manifest : ComputeRunStatus) : Bool :=
  manifest.runId = runId && manifest.status = "completed" &&
    (masterMetadata (some (acceptedResult outputSpec manifest))
      (some ((selectArtifacts outputSpec manifest.artifacts).map
        ComputeArtifact.artifactId))).isOk

/-- Compute completes the run with a valid manifest and the transfers succeed; a call may fail as long
as the handler retries it. -/
def answersWell (p : Point) (answer : Answer) : Bool :=
  match p, answer with
  | .creating request, .ok _ => requestValid request
  | .creating request, .error code => requestValid request && code ∈ retryableCreateErrors
  | .polling .., .ok run => inProgress run.status || run.status = "completed"
  | .fetching runId outputSpec, .ok manifest => validManifest runId outputSpec manifest
  | .downloading _, .error _ | .uploadingMaster _, .error _ | .uploadingManifest _, .error _ => false
  | _, _ => true

/-- The job is not cancelled and its quota does not expire, and what Compute and the
storage answer to its handlers is good. -/
def undisturbed (j : JobId) (s : State) : Action → Bool
  | .requestCancel job => job ≠ j
  | .advance h answer => (s.handlers h).all fun x =>
    x.job ≠ j || match x.point with
      | .expiring => (expireReservation s.db s.now j).isNone
      | p => answersWell p answer
  | _ => true

/-- No ingestion of the job starts while another one is in progress, and no dead letter
finds the job open. -/
def unaborted (j : JobId) (s : State) : Action → Bool
  | .advance h _ => (s.handlers h).all fun x =>
    x.job ≠ j || match x.point with
      | .ingestClaim => jobStatus s.db j ≠ some .ingesting
      | .deadLetter _ => (jobStatus s.db j).all JobStatus.isTerminal
      | _ => true
  | _ => true

/-! ## The stages of a job -/

def JobStatus.stage : JobStatus → Nat
  | .queued => 1
  | .submitting => 2
  | .running => 3
  | .computeSucceeded => 4
  | .ingesting => 5
  | .completed => 6
  | .failed | .cancelRequested | .cancelled => 0

/-- The stage of the job, 0 before it is created. -/
def stageOf (db : Db) (j : JobId) : Nat := ((jobStatus db j).map JobStatus.stage).getD 0

/-- The stage that the job has reached when a handler is at the point; past the last
stage for a point that no handler gets to. -/
def Point.needs (p : Point) : Nat :=
  match p with
  | .ingestClaim => 4
  | .downloading _ | .uploadingMaster _ | .uploadingManifest _ | .finalizing _ => 5
  | .ingestFailing _ => 6
  | .failing _ | .pollCancelling | .cancelWithout | .cancelSending _ | .cancelSent _ => 7
  | _ => 0

/-- The job can be ingested from what is saved about it. -/
def Ingestible (result : Option ComputeResult) (selected : Option (List String)) : Prop :=
  ∃ master, masterMetadata result selected = .ok master

structure FineRow (row : RenderJob) : Prop where
  stage : 0 < row.status.stage
  metadata : row.status = .computeSucceeded → Ingestible row.computeResult row.selectedArtifactIds

/-- What a handler of the job knows at its point. -/
structure FinePoint (db : Db) (j : JobId) (p : Point) : Prop where
  needs : p.needs ≤ stageOf db j
  metadata : ∀ result selected, p = .succeeding result selected →
    Ingestible (some result) (some selected)

section Stages
variable {db db' : Db} {j : JobId} {row : RenderJob}

theorem stageOf_eq (hrow : db.jobs.find? j = some row) : stageOf db j = row.status.stage := by
  rw [stageOf, jobStatus_eq hrow]
  rfl

theorem stageOf_congr (h : db'.jobs.find? j = db.jobs.find? j) : stageOf db' j = stageOf db j := by
  rw [stageOf, jobStatus, h]
  rfl

theorem stageOf_le (db : Db) (j : JobId) : stageOf db j ≤ 6 := by
  cases hrow : db.jobs.find? j with
  | none =>
    rw [stageOf, jobStatus, hrow]
    decide
  | some row =>
    rw [stageOf_eq hrow]
    cases row.status <;> decide

theorem FinePoint.mono {p : Point} (hp : FinePoint db j p) (hle : stageOf db j ≤ stageOf db' j) :
    FinePoint db' j p := ⟨hp.needs.trans hle, hp.metadata⟩

theorem finePoint_of_needs {p : Point} (h : p.needs = 0)
    (hp : ∀ result selected, p ≠ .succeeding result selected) : FinePoint db j p :=
  ⟨h ▸ Nat.zero_le _, fun result selected heq => absurd heq (hp result selected)⟩

theorem not_cancelRequested (hfine : ∀ row, db.jobs.find? j = some row → FineRow row) :
    jobStatus db j ≠ some .cancelRequested := by
  intro hstatus
  obtain ⟨row, hrow, hcancel⟩ := Option.map_eq_some_iff.mp hstatus
  have hstage := (hfine row hrow).stage
  rw [hcancel] at hstage
  exact absurd hstage (by decide)

theorem completed_of_stage (hneeds : 5 ≤ stageOf db j)
    (hover : jobStatus db j ≠ some .ingesting) : 6 ≤ stageOf db j := by
  unfold stageOf at hneeds ⊢
  revert hneeds hover
  cases jobStatus db j with
  | none => decide
  | some status => cases status <;> decide

theorem terminal_of_stage (hneeds : 6 ≤ stageOf db j) :
    (jobStatus db j).all JobStatus.isTerminal = true := by
  unfold stageOf at hneeds
  revert hneeds
  cases jobStatus db j with
  | none => decide
  | some status => cases status <;> decide

theorem failAndRelease_of_terminal {code : String}
    (hend : (jobStatus db j).all JobStatus.isTerminal = true) : failAndRelease db j code = none := by
  cases hfail : failAndRelease db j code with
  | none => rfl
  | some d =>
    obtain ⟨row, hrow, hcase⟩ := failAndRelease_eq_some hfail
    rw [jobStatus_eq hrow, Option.all_some] at hend
    exfalso
    obtain ⟨hmem, -⟩ | ⟨hcancel, -⟩ := hcase
    · revert hmem hend
      cases row.status <;> decide
    · rw [hcancel] at hend
      cases hend

/-- The step from one row to the next keeps the job fine and does not lower its stage. -/
def Advances (db db' : Db) (j : JobId) : Prop :=
  (∀ row, db'.jobs.find? j = some row → FineRow row) ∧ stageOf db j ≤ stageOf db' j

theorem Advances.same (hfine : ∀ row, db.jobs.find? j = some row → FineRow row)
    (h : db'.jobs.find? j = db.jobs.find? j) : Advances db db' j :=
  ⟨by rwa [h], (stageOf_congr h).ge⟩

theorem Advances.ofRow {row' : RenderJob} (hrow : db.jobs.find? j = some row)
    (hrow' : db'.jobs.find? j = some row') (hfine : FineRow row')
    (hle : row.status.stage ≤ row'.status.stage) : Advances db db' j := by
  refine ⟨fun r hr => ?_, ?_⟩
  · obtain rfl := Option.some.inj (hrow'.symm.trans hr)
    exact hfine
  · rw [stageOf_eq hrow, stageOf_eq hrow']
    exact hle

theorem Advances.update {a b : JobStatus} {f : RenderJob → RenderJob}
    (h : updateJob db j [a] f = some db')
    (hstatus : ∀ row, row.status = a → (f row).status = b) (hpos : 0 < a.stage)
    (hle : a.stage ≤ b.stage)
    (hmeta : b = .computeSucceeded → ∀ row, Ingestible (f row).computeResult
      (f row).selectedArtifactIds) :
    Advances db db' j ∧ stageOf db' j = b.stage := by
  obtain ⟨row, hrow, hmem, rfl⟩ := updateJob_eq_some h
  have ha := List.mem_singleton.mp hmem
  have hb := hstatus row ha
  have hrow' := find?_modifyJob hrow f
  refine ⟨.ofRow hrow hrow' ⟨?_, fun hdone => ?_⟩ ?_, ?_⟩
  · rw [hb]
    exact hpos.trans_le hle
  · exact hmeta (hb.symm.trans hdone) row
  · rw [ha, hb]
    exact hle
  · rw [stageOf_eq hrow', hb]

theorem Advances.completeJob {db₁ : Db} (hsame : db₁.jobs = db.jobs)
    (h : completeJob db₁ j = some db') : Advances db db' j := by
  obtain ⟨row, hrow, hmem, rfl⟩ := completeJob_eq_some h
  have hrow' := find?_terminate hrow .completed none .released
  rw [hsame] at hrow
  refine .ofRow hrow hrow' ⟨Nat.succ_pos 5, nofun⟩ ?_
  show row.status.stage ≤ 6
  cases row.status <;> decide

end Stages

/-! ## One step -/

/-- No row of the job is failed or about to be. -/
structure Fine (j : JobId) (s : State) : Prop where
  row : ∀ row, s.db.jobs.find? j = some row → FineRow row
  point : ∀ h x, s.handlers h = some x → x.job = j → FinePoint s.db j x.point

section Step
variable {s : State} {j : JobId} {now : DateTime} {answer : Answer} {db db' : Db} {p q : Point}
  {heard : List ComputeTrace}

theorem ingestible_of_valid {runId : String} {outputSpec : Json} {manifest : ComputeRunStatus}
    (h : validManifest runId outputSpec manifest = true) :
    manifest.runId = runId ∧ manifest.status = "completed" ∧
      Ingestible (some (acceptedResult outputSpec manifest))
        (some ((selectArtifacts outputSpec manifest.artifacts).map ComputeArtifact.artifactId)) := by
  simp only [validManifest, Bool.and_eq_true, decide_eq_true_eq] at h
  refine ⟨h.1.1, h.1.2, ?_⟩
  cases hmeta : masterMetadata (some (acceptedResult outputSpec manifest))
      (some ((selectArtifacts outputSpec manifest.artifacts).map ComputeArtifact.artifactId)) with
  | ok master => exact ⟨master, hmeta⟩
  | error e => exact absurd h.2 (by rw [hmeta]; exact Bool.false_ne_true)

theorem not_ingestible_nil (result : Option ComputeResult) : ¬ Ingestible result (some []) := by
  rintro ⟨master, hmaster⟩
  cases result <;> cases hmaster

/-! What a good answer and the stage of the job rule out. -/

theorem not_refused {request : Json} (hanswer : answersWell (.creating request) answer = true) :
    ¬ (requestValid request = false ∨ ∃ e, answer = .error e ∧ e ∉ retryableCreateErrors) := by
  rintro (hinvalid | ⟨e, rfl, he⟩)
  · cases answer <;> simp [answersWell, hinvalid] at hanswer
  · simp [answersWell, he] at hanswer

theorem not_rejected {runId : String} {outputSpec : Json} {manifest : ComputeRunStatus}
    (h : validManifest runId outputSpec manifest = true) :
    ¬ (manifest.runId ≠ runId ∨ manifest.status ≠ "completed" ∨
      selectArtifacts outputSpec manifest.artifacts = []) := by
  obtain ⟨hrun, hstatus, hgood⟩ := ingestible_of_valid h
  rintro (hne | hne | hnil)
  · exact hne hrun
  · exact hne hstatus
  · rw [hnil] at hgood
    exact not_ingestible_nil _ hgood

theorem ingesting_of_unready {status : JobStatus} (hneeds : 4 ≤ status.stage)
    (hopen : status ≠ .completed) (hunready : status ≠ .computeSucceeded) :
    status = .ingesting := by
  revert hneeds hopen hunready
  cases status <;> decide

theorem needs_of_isCancelling (h : p.isCancelling = true) : p.needs = 7 := by
  cases p <;> first | rfl | cases h

theorem needs_of_isTransferring (h : p.isTransferring = true) : p.needs = 5 := by
  cases p <;> first | rfl | cases h

theorem finePoint_of_isIngesting (h : q.isIngesting = true) (hneeds : 5 ≤ stageOf db j) :
    FinePoint db j q := by
  constructor
  · cases q <;> first | exact hneeds | cases h
  · rintro result selected rfl
    cases h

theorem not_transferFailed {e : String} (hfrom : p.isTransferring = true) :
    answersWell p (.error e) = false := by
  cases p <;> first | rfl | cases hfrom

theorem Effect.fine (he : Effect now j answer db p db' q heard)
    (hrow : ∀ row, db.jobs.find? j = some row → FineRow row) (hp : FinePoint db j p)
    (hanswer : answersWell p answer = true)
    (hexpire : p = .expiring → expireReservation db now j = none)
    (hingest : p = .ingestClaim → jobStatus db j ≠ some .ingesting)
    (hdead : ∀ code, p = .deadLetter code → (jobStatus db j).all JobStatus.isTerminal = true) :
    Advances db db' j ∧ FinePoint db' j q := by
  have hsame : Advances db db j := .same hrow rfl
  have hnever : ¬ 7 ≤ stageOf db j := Nat.not_le_of_lt (Nat.lt_succ_of_le (stageOf_le db j))
  have hfree := not_cancelRequested hrow
  have hended : ∀ (d : Db) (o : Outbox.HandlerOutcome), FinePoint d j (.ended o) :=
    fun _ _ => finePoint_of_needs rfl nofun
  cases he
  case ended => exact ⟨hsame, hended ..⟩
  case claimed row hrow' hqueued hset =>
    have hadv := Advances.update hset (fun _ _ => rfl) (by decide) (by decide) nofun
    exact ⟨hadv.1, finePoint_of_needs rfl nofun⟩
  case reclaimed => exact ⟨hsame, finePoint_of_needs rfl nofun⟩
  case claimCancelled hcancel _ => exact absurd hcancel hfree
  case refused request code hbad => exact absurd hbad (not_refused hanswer)
  case returned => exact ⟨hsame, finePoint_of_needs rfl nofun⟩
  case submitted runId db₁ hsaved =>
    have hadv := Advances.update hsaved (fun _ _ => rfl) (by decide) (by decide) nofun
    exact ⟨hadv.1, hended ..⟩
  case savedLate hsaved =>
    obtain ⟨row, hrow', hmem, -⟩ := updateJob_eq_some (saveRunIdIfCancelling_eq_some hsaved)
    exact absurd (List.mem_singleton.mp hmem ▸ jobStatus_eq hrow') hfree
  case failed => exact absurd hp.needs hnever
  case ingestible hstatus =>
    obtain ⟨row, hrow', hsucceeded⟩ := Option.map_eq_some_iff.mp hstatus
    refine ⟨hsame, ?_, nofun⟩
    rw [stageOf_eq hrow', hsucceeded]
    decide
  case polled => exact ⟨hsame, finePoint_of_needs rfl nofun⟩
  case waiting => exact ⟨hsame, finePoint_of_needs rfl nofun⟩
  case stopped run runId outputSpec hok hfinal hnot hq =>
    subst hok
    simp [answersWell, hfinal, hnot] at hanswer
  case completed => exact ⟨hsame, finePoint_of_needs rfl nofun⟩
  case progressed hsaved =>
    have hadv := Advances.update hsaved (fun _ h => h) (by decide) (le_refl _) nofun
    exact ⟨hadv.1, hended ..⟩
  case cancelled hcancelling _ =>
    exact absurd (needs_of_isCancelling hcancelling ▸ hp.needs) hnever
  case rejected manifest runId outputSpec code hok hbad =>
    subst hok
    exact absurd hbad (not_rejected hanswer)
  case accepted manifest runId outputSpec hok =>
    subst hok
    refine ⟨hsame, Nat.zero_le _, ?_⟩
    rintro result selected ⟨⟩
    exact (ingestible_of_valid hanswer).2.2
  case succeeded result selected hsaved =>
    have hmeta := hp.metadata result selected rfl
    have hadv := Advances.update hsaved (fun _ _ => rfl) (by decide) (by decide)
      fun _ _ => hmeta
    exact ⟨hadv.1, hadv.2.ge, nofun⟩
  case unready row hrow' hopen hunready =>
    have hneeds : 4 ≤ row.status.stage := stageOf_eq hrow' ▸ hp.needs
    have hstatus := ingesting_of_unready hneeds hopen hunready
    exact absurd (hstatus ▸ jobStatus_eq hrow') (hingest rfl)
  case alreadyReady row hrow' hstatus _ hdone =>
    exact ⟨.completeJob (jobs_createOrGetProcessing db j row) hdone, hended ..⟩
  case unfit row e hrow' hstatus herror =>
    obtain ⟨master, hmaster⟩ := (hrow row hrow').metadata hstatus
    cases herror.symm.trans hmaster
  case ingesting row master hrow' hstatus hset =>
    have hadv := Advances.update hset (fun _ _ => rfl) (by decide) (by decide) nofun
    exact ⟨hadv.1, hadv.2.ge, nofun⟩
  case transferred hfrom hto =>
    exact ⟨hsame, finePoint_of_isIngesting hto (needs_of_isTransferring hfrom ▸ hp.needs)⟩
  case transferFailed herror hfrom =>
    subst herror
    rw [not_transferFailed hfrom] at hanswer
    cases hanswer
  case finalized master hdone =>
    exact ⟨.completeJob (jobs_finalizeIngestion db j) hdone, hended ..⟩
  case unfinalizable master hstatus =>
    have hneeds : 5 ≤ stageOf db j := hp.needs
    exact ⟨hsame, completed_of_stage hneeds hstatus, nofun⟩
  case ingestFailed assetKnown hmark hfail =>
    have hend := terminal_of_stage (hp.needs : 6 ≤ stageOf db j)
    rw [hmark, failAndRelease_markIfKnown, failAndRelease_of_terminal hend] at hfail
    cases hfail
  case ingestFailedLate assetKnown hmark _ =>
    subst hmark
    refine ⟨.same hrow ?_, hended ..⟩
    split <;> rfl
  case unsubmitted row hrow' hcancel _ =>
    exact absurd (hcancel ▸ jobStatus_eq hrow') hfree
  case forwarding row runId hrow' hcancel _ =>
    exact absurd (hcancel ▸ jobStatus_eq hrow') hfree
  case sent => exact absurd hp.needs hnever
  case unsent => exact absurd hp.needs hnever
  case expired hexpired =>
    rw [hexpire rfl] at hexpired
    cases hexpired
  case deadLettered code code' hfail =>
    rw [failAndRelease_of_terminal (hdead code rfl)] at hfail
    cases hfail

end Step

/-! ## Every run -/

theorem point_of_entry {p : Point} (h : p.isEntry) (db : Db) (j : JobId) : FinePoint db j p := by
  obtain ⟨type, rfl⟩ | ⟨code, rfl⟩ := h
  · cases type <;> exact finePoint_of_needs rfl nofun
  · exact finePoint_of_needs rfl nofun

theorem Fine.write {j : JobId} {s : State} (hf : Fine j s) {db' : Db}
    (hadv : Advances s.db db' j) : Fine j (s.commit db') :=
  ⟨hadv.1, fun h x hx hj => (hf.point h x hx hj).mono hadv.2⟩

theorem advances_created {j job : JobId} {db : Db} {jobs : Table JobId RenderJob}
    {owner : UserId} {outputKind : OutputKind} {outputSpec computeRequest : Json}
    (hrow : ∀ row, db.jobs.find? j = some row → FineRow row)
    (hjobs : db.jobs.insert? job (newJob owner outputKind outputSpec computeRequest) = some jobs) :
    Advances db (setJobs db jobs) j := by
  by_cases hj : j = job
  · subst hj
    have hnew : jobs.find? j = some (newJob owner outputKind outputSpec computeRequest) := by
      rw [Table.find?_insert hjobs, if_pos rfl]
    have hold : stageOf db j = 0 := by
      rw [stageOf, jobStatus, (Table.insert?_eq_some hjobs).1]
      rfl
    refine ⟨fun row hr => ?_, hold.le.trans (Nat.zero_le _)⟩
    obtain rfl := Option.some.inj (hnew.symm.trans hr)
    exact ⟨Nat.succ_pos 0, fun h => by cases h⟩
  · exact .same hrow ((Table.find?_insert hjobs j).trans (if_neg hj))

/-- A delivery that nothing disturbs leaves its job fine. -/
theorem fine_of_moved {cfg : Settings} {j : JobId} {s s' : State} {a : Action} (hf : Fine j s)
    (hm : Moved cfg s a s') (hgood : undisturbed j s a = true) (hcalm : unaborted j s a = true) :
    Fine j s' := by
  cases hm
  case idle events now handlers hhandlers =>
    refine ⟨hf.row, fun h x hx hj => ?_⟩
    obtain hold | hentry := hhandlers h x hx
    · have hp := hf.point h x hold hj
      exact ⟨hp.needs, hp.metadata⟩
    · exact point_of_entry hentry _ j
  case created hjobs hreserve =>
    have hadv := advances_created hf.row hjobs
    obtain ⟨-, reservations, -, rfl⟩ := reserve_eq_ok hreserve
    exact hf.write hadv
  case cancelRequested job db hset =>
    have hne : job ≠ j := of_decide_eq_true hgood
    exact hf.write (.same hf.row ((Touches.updateJob hset).jobs j hne.symm))
  case deleted hdelete =>
    obtain ⟨a, -, -, rfl⟩ := softDelete_eq_some hdelete
    exact hf.write (.same hf.row rfl)
  case advanced h x answer db' q heard hx he =>
    simp only [undisturbed, unaborted, hx, Option.all_some, Bool.or_eq_true,
      decide_eq_true_eq] at hgood hcalm
    by_cases hj : x.job = j
    · subst hj
      have hgood' := hgood.resolve_left (absurd rfl)
      have hcalm' := hcalm.resolve_left (absurd rfl)
      obtain ⟨hadv, hq⟩ := he.fine hf.row (hf.point h x hx rfl)
        (by cases hp : x.point <;> rw [hp] at hgood' <;> first | exact hgood' | rfl)
        (fun hp => by rw [hp] at hgood'; exact Option.isNone_iff_eq_none.mp hgood')
        (fun hp => by rw [hp] at hcalm'; exact of_decide_eq_true hcalm')
        (fun code hp => by rw [hp] at hcalm'; exact hcalm')
      refine ⟨hadv.1, fun i y hy hi => ?_⟩
      obtain hnew | hold := update_eq_some hy
      · obtain rfl := Option.some.inj hnew
        exact hq
      · exact (hf.point i y hold hi).mono hadv.2
    · have hsame := he.touches.jobs j (Ne.symm hj)
      refine ⟨(Advances.same hf.row hsame).1, fun i y hy hi => ?_⟩
      obtain hnew | hold := update_eq_some hy
      · obtain rfl := Option.some.inj hnew
        exact absurd hi hj
      · exact (hf.point i y hold hi).mono (stageOf_congr hsame).ge

/-- While no ingestion of the job starts during another one and no dead letter finds it
open, no delivery moves it to failed. -/
theorem not_failed_of_unaborted (cfg : Settings) (j : JobId) {s : State}
    (hr : Reach Init (step cfg) (fun s a => (undisturbed j s a && unaborted j s a) = true) s) :
    jobStatus s.db j ≠ some .failed := by
  have hfine : Fine j s := by
    refine hr.invariant ?_ ?_
    · rintro s ⟨hdb, hhandlers, -⟩
      refine ⟨fun row hrow => ?_, fun h x hx => ?_⟩
      · rw [hdb] at hrow
        simp at hrow
      · rw [hhandlers] at hx
        cases hx
    · intro s a s' hf hok hstep
      rw [Bool.and_eq_true] at hok
      exact fine_of_moved hf (moved_of_step hstep) hok.1 hok.2
  intro hfailed
  obtain ⟨row, hrow, hstatus⟩ := Option.map_eq_some_iff.mp hfailed
  have hstage := (hfine.row row hrow).stage
  rw [hstatus] at hstage
  exact absurd hstage (by decide)

/-- Two poll deliveries overlap, the slower one finds the result saved, and a third one
comes after the end. -/
theorem not_failed_of_unaborted_run : ∃ s, jobStatus s.db 1 = some .completed ∧
    Reach Init (step settings)
      (fun s a => (undisturbed 1 s a && unaborted 1 s a) = true) s ∧
    jobStatus s.db 1 ≠ some .failed := by
  have hrun : (exec (guarded (step settings) fun s a => undisturbed 1 s a && unaborted 1 s a)
      emptyState (createImage :: submitImage 0 ++ delivery 2 .poll [silent] ++ pollImage 1 ++
        [.ok (imageRun "completed"), .ok (imageRun "completed"), silent].map (.advance 2) ++
        ingestImage 1 ++ delivery 3 .poll [silent])).any
      (fun s => decide (jobStatus s.db 1 = some .completed)) = true := by decide +kernel
  obtain ⟨s, hexec, hdone⟩ := (Option.any_eq_true _ _).mp hrun
  have hr := reach_of_guarded_exec init_emptyState hexec
  exact ⟨s, of_decide_eq_true hdone, hr, not_failed_of_unaborted settings 1 hr⟩

def Action.deadLetters : Action → Bool
  | .settle _ .dead => true
  | _ => false

/-- A second poll delivery finds the job `ingesting` and fails it, and the first one cannot finish. -/
theorem failed_by_overlapping_delivery : ¬ ∀ (cfg : Settings) (j : JobId) (s : State),
    Reach Init (step cfg) (fun s a => (undisturbed j s a && !a.deadLetters) = true) s →
    jobStatus s.db j ≠ some .failed := by
  intro hclaim
  have hrun : (exec (guarded (step settings) fun s a => undisturbed 1 s a && !a.deadLetters)
      emptyState (createImage :: submitImage 0 ++ pollImage 1 ++ delivery 2 .poll [silent] ++
        [.advance 1 silent, .advance 2 silent, .advance 2 silent] ++
        [.ok (imageRun ""), .ok (imageRun ""), .ok (imageRun ""), silent].map (.advance 1))).any
      (fun s => decide (jobStatus s.db 1 = some .failed)) = true := by decide +kernel
  obtain ⟨s, hexec, hfailed⟩ := (Option.any_eq_true _ _).mp hrun
  exact hclaim settings 1 s (reach_of_guarded_exec init_emptyState hexec)
    (of_decide_eq_true hfailed)

end FractalStudio.Studio
