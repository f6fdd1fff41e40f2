import FractalStudio.Studio.QuotaConsistency

/-!
# A cancelled job and the run that Compute made for it

The run id of a job is known only once the create call has been answered, and a request
to cancel may come before that. A run is accounted for when a handler has sent it
`cancel_run` or has seen it in a final status. The handlers that do one of the two and
then cancel the job leave no run behind; the others cancel without a look at Compute.
-/
namespace FractalStudio.Studio

open Transition

/-- The run that a handler carries from one step to the next. -/
def Point.runId? : Point → Option String
  | .savingRun runId | .polling runId _ | .fetching runId _ | .cancelSending runId
  | .cancelSent runId => some runId
  | _ => none

/-- The handler waits for the answer to a create call, or has it and has not saved the run id. -/
def Point.isSubmitting : Point → Bool
  | .creating _ | .savingRun _ => true
  | _ => false

/-- The handler has sent `cancel_run` or seen a final status, and cancels the job next. -/
def Point.hasAccount : Point → Bool
  | .pollCancelling | .cancelSent _ => true
  | _ => false

/-- The points that cancel a job in `cancel_requested` without a look at Compute or at its run id. -/
def Point.cancelsUnseen : Point → Bool
  | .submitClaim | .failing _ | .ingestFailing _ | .expiring | .deadLetter _ => true
  | _ => false

def ComputeTrace.job : ComputeTrace → JobId
  | .returned job _ | .sent job _ | .observed job _ => job

/-- The run was sent `cancel_run` or seen in a final status. -/
def Accounted (s : State) (j : JobId) (runId : String) : Prop :=
  .sent j runId ∈ s.trace ∨ .observed j runId ∈ s.trace

def Contacted (s : State) (j : JobId) : Prop := ∃ runId, Accounted s j runId

/-- No handler of the job stands between its create call and the save of the run id. -/
def Idle (s : State) (j : JobId) : Prop :=
  ∀ h x, s.handlers h = some x → x.job = j → x.point.isSubmitting = false

def Unsubmitted (s : State) (j : JobId) : Prop :=
  (∀ runId, .returned j runId ∉ s.trace) ∧ Idle s j

/-- What a step must not meet: another or an unusable answer of Compute, a crash before the run id
is saved, and a handler that takes the job for one without a run. `forward_cancellation` does so
when it reads no run id, the other points whatever they read. -/
structure Orderly (j : JobId) (s : State) (a : Action) : Prop where
  named : ∀ h x request run, a = .advance h (.ok run) → s.handlers h = some x → x.job = j →
    x.point = .creating request → run.runId ≠ "" ∧ runIdFits run.runId = true ∧
      ∀ runId, .returned j runId ∈ s.trace → runId = run.runId
  saves : ∀ h x runId, a = .crash h → s.handlers h = some x → x.job = j →
    x.point ≠ .savingRun runId
  read : ∀ h x answer row, a = .advance h answer → s.handlers h = some x → x.job = j →
    x.point = .cancelRead → s.db.jobs.find? j = some row → row.status = .cancelRequested →
    row.computeRunId = none → Idle s j
  unseen : ∀ h x answer row, a = .advance h answer → s.handlers h = some x → x.job = j →
    x.point.cancelsUnseen = true → s.db.jobs.find? j = some row → row.status = .cancelRequested →
    Idle s j ∧ ∀ runId, row.computeRunId = some runId → Accounted s j runId

/-! ## What one step does to the row, the point and the trace -/

/-- The statuses before a cancellation is asked for. -/
def JobStatus.isEarly : JobStatus → Bool
  | .queued | .submitting | .running => true
  | _ => false

/-- The statuses from which a job is never asked to be cancelled. -/
def JobStatus.isPast : JobStatus → Bool
  | .queued | .submitting | .running | .cancelRequested => false
  | _ => true

/-- What a handler may do to the row of its job. -/
structure RowStep (p : Point) (row row' : RenderJob) : Prop where
  runId : row'.computeRunId = row.computeRunId ∨
    ∃ runId, p = .savingRun runId ∧ row'.computeRunId = some runId
  cancelled : row'.status = .cancelled → row.status = .cancelled ∨ p.hasAccount = true ∨
    p.cancelsUnseen = true ∧ row.status = .cancelRequested ∨ p = .cancelWithout
  status : row'.status = row.status ∨ row.status = .queued ∧ row'.status = .submitting ∨
    row.status = .submitting ∧ row'.status = .running ∧ row'.computeRunId ≠ none ∨
    row'.status.isPast = true

variable {row row' : RenderJob} {r : String}

section Effects
variable {now : DateTime} {j : JobId} {answer : Answer} {db db' : Db} {p q : Point}
  {heard : List ComputeTrace}

theorem RowStep.refl (p : Point) (row : RenderJob) : RowStep p row row :=
  ⟨.inl rfl, .inl, .inl rfl⟩

theorem RowStep.early (hs : RowStep p row row') (h : row'.status.isEarly = true) :
    row.status.isEarly = true := by
  obtain heq | ⟨hq, -⟩ | ⟨hsub, -⟩ | hpast := hs.status
  · exact heq ▸ h
  · rw [hq]; rfl
  · rw [hsub]; rfl
  · cases hstatus : row'.status <;> rw [hstatus] at h hpast <;> cases h <;> cases hpast

theorem rowStep_terminate {status : JobStatus} {code : Option String}
    (hend : status.isPast = true) (hcancel : status = .cancelled → p.hasAccount = true ∨
      p.cancelsUnseen = true ∧ row.status = .cancelRequested ∨ p = .cancelWithout) :
    RowStep p row (row.withStatus status code) :=
  ⟨.inl rfl, fun h => .inr (hcancel h), .inr (.inr (.inr hend))⟩

/-- The row of the job after the step comes from its row before it. -/
def RowOf (p : Point) (db db' : Db) (j : JobId) : Prop :=
  ∀ row', db'.jobs.find? j = some row' → ∃ row, db.jobs.find? j = some row ∧ RowStep p row row'

theorem RowOf.same (h : db'.jobs = db.jobs) : RowOf p db db' j := by
  intro row hrow
  rw [h] at hrow
  exact ⟨row, hrow, .refl p row⟩

theorem RowOf.terminate {db₁ : Db} {status : JobStatus} {code : Option String}
    {res : ReservationStatus} (hrow : db.jobs.find? j = some row)
    (hstep : RowStep p row (row.withStatus status code)) (hsame : db₁.jobs = db.jobs) :
    RowOf p db (terminate db₁ j status code res) j := by
  intro row' hrow'
  rw [← hsame] at hrow
  rw [find?_terminate hrow] at hrow'
  obtain rfl := Option.some.inj hrow'
  exact ⟨row, hsame ▸ hrow, hstep⟩

theorem RowOf.updateJob {db₁ : Db} {expected : List JobStatus} {f : RenderJob → RenderJob}
    (h : updateJob db₁ j expected f = some db') (hsame : db₁.jobs = db.jobs)
    (hf : ∀ row, row.status ∈ expected → RowStep p row (f row)) : RowOf p db db' j := by
  obtain ⟨row, hrow, hmem, rfl⟩ := updateJob_eq_some h
  intro row' hrow'
  rw [find?_modifyJob hrow] at hrow'
  obtain rfl := Option.some.inj hrow'
  exact ⟨row, hsame ▸ hrow, hf row hmem⟩

theorem RowOf.failAndRelease {code : String} (h : failAndRelease db j code = some db')
    (hp : p.cancelsUnseen = true) : RowOf p db db' j := by
  obtain ⟨row, hrow, ⟨-, rfl⟩ | ⟨hcancel, rfl⟩⟩ := failAndRelease_eq_some h
  · exact .terminate hrow (rowStep_terminate rfl nofun) rfl
  · exact .terminate hrow (rowStep_terminate rfl fun _ => .inr (.inl ⟨hp, hcancel⟩)) rfl

theorem RowOf.completeJob {db₁ : Db} (h : completeJob db₁ j = some db')
    (hsame : db₁.jobs = db.jobs) : RowOf p db db' j := by
  obtain ⟨row, hrow, -, rfl⟩ := completeJob_eq_some h
  rw [hsame] at hrow
  exact .terminate hrow (rowStep_terminate rfl nofun) hsame

theorem Effect.rowOf (he : Effect now j answer db p db' q heard) : RowOf p db db' j := by
  cases he
  case claimed hset =>
    exact .updateJob hset rfl fun row hmem =>
      ⟨.inl rfl, nofun, .inr (.inl ⟨List.mem_singleton.mp hmem, rfl⟩)⟩
  case claimCancelled hstatus hcancel =>
    obtain ⟨row, hrow, -, rfl⟩ := cancelAndRelease_eq_some hcancel
    rw [jobStatus_eq hrow, Option.some.injEq] at hstatus
    exact .terminate hrow (rowStep_terminate rfl fun _ => .inr (.inl ⟨rfl, hstatus⟩)) rfl
  case submitted runId db₁ hsaved =>
    have hrows : RowOf (.savingRun runId) db db₁ j :=
      .updateJob hsaved rfl fun row hmem => ⟨.inr ⟨runId, rfl, rfl⟩, nofun,
        .inr (.inr (.inl ⟨List.mem_singleton.mp hmem, rfl, nofun⟩))⟩
    exact hrows
  case savedLate runId hsaved =>
    exact .updateJob (saveRunIdIfCancelling_eq_some hsaved) rfl
      fun _ _ => ⟨.inr ⟨runId, rfl, rfl⟩, .inl, .inl rfl⟩
  case failed hfail => exact .failAndRelease hfail rfl
  case progressed hsaved =>
    exact .updateJob hsaved rfl fun _ _ => ⟨.inl rfl, .inl, .inl rfl⟩
  case cancelled hcancelling hcancel =>
    obtain ⟨row, hrow, -, rfl⟩ := cancelAndRelease_eq_some hcancel
    refine .terminate hrow (rowStep_terminate rfl fun _ => ?_) rfl
    cases p <;> first
      | exact absurd hcancelling Bool.false_ne_true
      | exact .inl rfl
      | exact .inr (.inr rfl)
  case succeeded hsaved =>
    exact .updateJob hsaved rfl fun _ _ => ⟨.inl rfl, nofun, .inr (.inr (.inr rfl))⟩
  case alreadyReady row _ _ _ hdone => exact .completeJob hdone rfl
  case ingesting row master _ _ hset =>
    exact .updateJob hset rfl fun _ _ => ⟨.inl rfl, nofun, .inr (.inr (.inr rfl))⟩
  case finalized hdone => exact .completeJob hdone (jobs_finalizeIngestion db j)
  case ingestFailed assetKnown hmark hfail =>
    rw [hmark, failAndRelease_markIfKnown] at hfail
    obtain ⟨d, hfail', rfl⟩ := Option.map_eq_some_iff.mp hfail
    have hrows : RowOf (.ingestFailing assetKnown) db d j := .failAndRelease hfail' rfl
    cases assetKnown <;> exact hrows
  case ingestFailedLate assetKnown hmark _ =>
    subst hmark
    cases assetKnown <;> exact .same rfl
  case expired hexpire =>
    obtain ⟨row, hrow, ⟨-, rfl⟩ | ⟨hcancel, rfl⟩ | ⟨-, -, rfl⟩⟩ := expireReservation_eq_some hexpire
    · exact .same rfl
    · exact .terminate hrow (rowStep_terminate rfl fun _ => .inr (.inl ⟨rfl, hcancel⟩)) rfl
    · exact .terminate hrow (rowStep_terminate rfl nofun) rfl
  case deadLettered hfail => exact .failAndRelease hfail rfl
  all_goals exact .same rfl

structure NextPoint (j : JobId) (db : Db) (p : Point) (db' : Db) (q : Point)
    (heard : List ComputeTrace) : Prop where
  carried : ∀ runId, q.runId? = some runId → p.runId? = some runId ∨
    (∃ row, db.jobs.find? j = some row ∧ row.computeRunId = some runId) ∨
    .returned j runId ∈ heard
  account : q.hasAccount = true → ∃ runId, .sent j runId ∈ heard ∨ .observed j runId ∈ heard
  without : q = .cancelWithout → p = .cancelRead ∧ ∃ row, db.jobs.find? j = some row ∧
    row.status = .cancelRequested ∧ row.computeRunId.filter (· ≠ "") = none
  submitting : q.isSubmitting = true → p.isSubmitting = true ∨
    ∃ row', db'.jobs.find? j = some row' ∧ row'.status = .submitting

theorem nextPoint_plain (hrun : q.runId? = none) (haccount : q.hasAccount = false)
    (hwithout : q ≠ .cancelWithout) (hsubmitting : q.isSubmitting = false) :
    NextPoint j db p db' q heard where
  carried runId h := by rw [hrun] at h; cases h
  account h := by rw [haccount] at h; cases h
  without h := absurd h hwithout
  submitting h := by rw [hsubmitting] at h; cases h

theorem Effect.nextPoint (he : Effect now j answer db p db' q heard) :
    NextPoint j db p db' q heard := by
  cases he
  case claimed row hrow hqueued hset =>
    obtain ⟨r, hr, -, rfl⟩ := updateJob_eq_some hset
    exact ⟨nofun, nofun, nofun, fun _ => .inr ⟨_, find?_modifyJob hr _, rfl⟩⟩
  case reclaimed row hrow hsubmitting =>
    exact ⟨nofun, nofun, nofun, fun _ => .inr ⟨row, hrow, hsubmitting⟩⟩
  case returned run request hok =>
    refine ⟨?_, nofun, nofun, fun _ => .inl rfl⟩
    rintro runId ⟨⟩
    exact .inr (.inr (List.mem_singleton_self _))
  case polled row runId hrow _ hrun =>
    refine ⟨?_, nofun, nofun, nofun⟩
    rintro r ⟨⟩
    exact .inr (.inl ⟨row, hrow, hrun⟩)
  case stopped runId outputSpec _ _ _ hq =>
    have hseen : .observed j runId ∈ [ComputeTrace.observed j runId] := List.mem_singleton_self _
    obtain rfl | ⟨code, rfl⟩ := hq
    · exact ⟨nofun, fun _ => ⟨runId, .inr hseen⟩, nofun, nofun⟩
    · exact nextPoint_plain rfl rfl nofun rfl
  case completed runId outputSpec => exact ⟨fun _ h => .inl h, nofun, nofun, nofun⟩
  case transferred hfrom hto =>
    cases q <;> first
      | exact absurd hto Bool.false_ne_true
      | exact nextPoint_plain rfl rfl nofun rfl
  case unsubmitted row hrow hcancel hnone =>
    exact ⟨nofun, nofun, fun _ => ⟨rfl, row, hrow, hcancel, hnone⟩, nofun⟩
  case forwarding row runId hrow _ hrun =>
    refine ⟨?_, nofun, nofun, nofun⟩
    rintro r ⟨⟩
    exact .inr (.inl ⟨row, hrow, hrun⟩)
  case sent runId =>
    exact ⟨fun _ h => .inl h, fun _ => ⟨runId, .inl (List.mem_singleton_self _)⟩, nofun, nofun⟩
  all_goals exact nextPoint_plain rfl rfl nofun rfl

/-- What a step adds to the trace: the run of the answered create call, or an account of
the run that the handler carries. -/
theorem Effect.hears (he : Effect now j answer db p db' q heard) :
    ∀ e ∈ heard,
      (∃ request run, p = .creating request ∧ answer = .ok run ∧ q = .savingRun run.runId ∧
        e = .returned j run.runId) ∨
      ∃ runId, p.runId? = some runId ∧ (e = .sent j runId ∨ e = .observed j runId) := by
  cases he
  case returned run request hok =>
    intro e he
    exact .inl ⟨request, run, rfl, hok, rfl, List.mem_singleton.mp he⟩
  case stopped runId outputSpec _ _ _ _ =>
    intro e he
    exact .inr ⟨runId, rfl, .inr (List.mem_singleton.mp he)⟩
  case completed runId outputSpec =>
    intro e he
    exact .inr ⟨runId, rfl, .inr (List.mem_singleton.mp he)⟩
  case sent runId =>
    intro e he
    exact .inr ⟨runId, rfl, .inl (List.mem_singleton.mp he)⟩
  case unsent runId outcome =>
    intro e he
    exact .inr ⟨runId, rfl, .inl (List.mem_singleton.mp he)⟩
  all_goals exact nofun

theorem Effect.returned_mem (he : Effect now j answer db p db' q heard)
    {trace : List ComputeTrace} (hr : .returned j r ∈ trace ++ heard) :
    .returned j r ∈ trace ∨
      ∃ request run, p = .creating request ∧ answer = .ok run ∧ q = .savingRun run.runId ∧
        r = run.runId := by
  obtain hr | hr := List.mem_append.mp hr
  · exact .inl hr
  · obtain ⟨request, run, hp, hok, hq, heq⟩ | ⟨r', -, heq | heq⟩ := he.hears _ hr
    · injection heq with _ heq
      exact .inr ⟨request, run, hp, hok, hq, heq⟩
    · cases heq
    · cases heq

theorem Effect.account_mem (he : Effect now j answer db p db' q heard) {trace : List ComputeTrace}
    (hr : .sent j r ∈ trace ++ heard ∨ .observed j r ∈ trace ++ heard) :
    (.sent j r ∈ trace ∨ .observed j r ∈ trace) ∨ p.runId? = some r := by
  obtain hr | hr := hr <;> obtain hold | hnew := List.mem_append.mp hr
  · exact .inl (.inl hold)
  · obtain ⟨_, _, -, -, -, heq⟩ | ⟨r', hcarry, heq | heq⟩ := he.hears _ hnew
    · cases heq
    · injection heq with _ heq
      exact .inr (heq ▸ hcarry)
    · cases heq
  · exact .inl (.inr hold)
  · obtain ⟨_, _, -, -, -, heq⟩ | ⟨r', hcarry, heq | heq⟩ := he.hears _ hnew
    · cases heq
    · cases heq
    · injection heq with _ heq
      exact .inr (heq ▸ hcarry)

end Effects

/-! ## One step -/

/-- Some handler is about to save the run id. -/
def Carried (s : State) (j : JobId) (r : String) : Prop :=
  ∃ h x, s.handlers h = some x ∧ x.job = j ∧ x.point = .savingRun r

/-- The run id of a job that may still be cancelled is in its row or on the way there, and a
cancelled job has its run accounted for or was never submitted. -/
structure Tracked (j : JobId) (s : State) : Prop where
  unique : ∀ r r', .returned j r ∈ s.trace → .returned j r' ∈ s.trace → r = r'
  named : ∀ r, .returned j r ∈ s.trace → r ≠ "" ∧ runIdFits r = true
  returned : ∀ r, Accounted s j r → .returned j r ∈ s.trace
  saved : ∀ row, s.db.jobs.find? j = some row → ∀ r, row.computeRunId = some r →
    .returned j r ∈ s.trace
  carried : ∀ h x, s.handlers h = some x → x.job = j → ∀ r, x.point.runId? = some r →
    .returned j r ∈ s.trace
  fresh : (∀ row, s.db.jobs.find? j = some row → row.status = .queued) → Unsubmitted s j
  running : ∀ row, s.db.jobs.find? j = some row → row.status = .running → row.computeRunId ≠ none
  held : ∀ row, s.db.jobs.find? j = some row → row.status.isPast = false →
    ∀ r, .returned j r ∈ s.trace → row.computeRunId = some r ∨ Carried s j r
  account : ∀ h x, s.handlers h = some x → x.job = j → x.point.hasAccount = true → Contacted s j
  without : ∀ h x, s.handlers h = some x → x.job = j → x.point = .cancelWithout →
    (∃ row, s.db.jobs.find? j = some row ∧ row.status.isEarly = false) ∧ Unsubmitted s j
  cancelled : jobStatus s.db j = some .cancelled → Contacted s j ∨ Unsubmitted s j

/-- What the steps of others leave of the row: they may ask for its cancellation. -/
structure RowKept (row row' : RenderJob) : Prop where
  runId : row'.computeRunId = row.computeRunId
  status : row'.status = row.status ∨ row.status.isEarly = true ∧ row'.status = .cancelRequested

theorem RowKept.refl (row : RenderJob) : RowKept row row := ⟨rfl, .inl rfl⟩

theorem RowKept.past (hk : RowKept row row') (h : row'.status.isPast = false) :
    row.status.isPast = false := by
  obtain heq | ⟨hearly, -⟩ := hk.status
  · exact heq ▸ h
  · revert hearly
    cases row.status <;> first | exact fun _ => rfl | exact nofun

section Step
variable {s s' : State} {j : JobId}

theorem point_of_isEntry {p : Point} (h : p.isEntry) :
    p.runId? = none ∧ p.hasAccount = false ∧ p ≠ .cancelWithout ∧ p.isSubmitting = false := by
  obtain ⟨type, rfl⟩ | ⟨code, rfl⟩ := h
  · cases type <;> exact ⟨rfl, rfl, nofun, rfl⟩
  · exact ⟨rfl, rfl, nofun, rfl⟩

/-- A step that hears nothing of the job, starts only new handlers of it and drops none with a
run id keeps its run tracked. -/
theorem Tracked.quiet (ht : Tracked j s)
    (htrace : ∀ e : ComputeTrace, e.job = j → (e ∈ s'.trace ↔ e ∈ s.trace))
    (hhandlers : ∀ h x, s'.handlers h = some x → x.job = j →
      s.handlers h = some x ∨ x.point.isEntry)
    (hsaving : ∀ r, Carried s j r → Carried s' j r)
    (hgrows : Grows s.db s'.db)
    (hrow : ∀ row', s'.db.jobs.find? j = some row' →
      (∃ row, s.db.jobs.find? j = some row ∧ RowKept row row') ∨
      s.db.jobs.find? j = none ∧ row'.computeRunId = none ∧ row'.status = .queued) :
    Tracked j s' := by
  have hmem : ∀ r, (.returned j r ∈ s'.trace ↔ .returned j r ∈ s.trace) ∧
      (Accounted s' j r ↔ Accounted s j r) :=
    fun r => ⟨htrace _ rfl, or_congr (htrace _ rfl) (htrace _ rfl)⟩
  have hcontacted : Contacted s j → Contacted s' j :=
    fun ⟨r, hr⟩ => ⟨r, (hmem r).2.mpr hr⟩
  have hunsubmitted : Unsubmitted s j → Unsubmitted s' j := by
    refine fun hu => ⟨fun r hr => hu.1 r ((hmem r).1.mp hr), fun h x hx hj => ?_⟩
    obtain hold | hentry := hhandlers h x hx hj
    · exact hu.2 h x hold hj
    · exact (point_of_isEntry hentry).2.2.2
  refine ⟨fun r r' hr hr' => ?_, fun r hr => ?_, fun r hr => ?_, ?_, ?_, ?_, ?_, ?_, ?_, ?_, ?_⟩
  · exact ht.unique r r' ((hmem r).1.mp hr) ((hmem r').1.mp hr')
  · exact ht.named r ((hmem r).1.mp hr)
  · exact (hmem r).1.mpr (ht.returned r ((hmem r).2.mp hr))
  · intro row' hr r hrun
    obtain ⟨row, hold, hkept⟩ | ⟨-, hid, -⟩ := hrow row' hr
    · exact (hmem r).1.mpr (ht.saved row hold r (hkept.runId.symm.trans hrun))
    · exact nomatch hid.symm.trans hrun
  · intro h x hx hj r hrun
    obtain hold | hentry := hhandlers h x hx hj
    · exact (hmem r).1.mpr (ht.carried h x hold hj r hrun)
    · exact nomatch (point_of_isEntry hentry).1.symm.trans hrun
  · intro hqueued
    refine hunsubmitted (ht.fresh fun row hr => ?_)
    obtain ⟨row', hr', -⟩ := hgrows.job j row hr
    obtain ⟨row₁, hr₁, hkept⟩ | ⟨hnone, -⟩ := hrow row' hr'
    · obtain rfl := Option.some.inj (hr.symm.trans hr₁)
      obtain heq | ⟨-, hasked⟩ := hkept.status
      · exact heq.symm.trans (hqueued row' hr')
      · exact nomatch hasked.symm.trans (hqueued row' hr')
    · exact nomatch hnone.symm.trans hr
  · intro row' hr hrunning
    obtain ⟨row, hold, hkept⟩ | ⟨-, -, hqueued⟩ := hrow row' hr
    · obtain heq | ⟨-, hasked⟩ := hkept.status
      · exact hkept.runId ▸ ht.running row hold (heq.symm.trans hrunning)
      · exact nomatch hasked.symm.trans hrunning
    · exact nomatch hqueued.symm.trans hrunning
  · intro row' hr hopen r hreturned
    obtain ⟨row, hold, hkept⟩ | ⟨hnone, -⟩ := hrow row' hr
    · exact (ht.held row hold (hkept.past hopen) r ((hmem r).1.mp hreturned)).imp
        hkept.runId.trans (hsaving r)
    · have hu := ht.fresh fun row h => nomatch hnone.symm.trans h
      exact absurd ((hmem r).1.mp hreturned) (hu.1 r)
  · intro h x hx hj haccount
    obtain hold | hentry := hhandlers h x hx hj
    · exact hcontacted (ht.account h x hold hj haccount)
    · exact nomatch (point_of_isEntry hentry).2.1.symm.trans haccount
  · intro h x hx hj hp
    obtain hold | hentry := hhandlers h x hx hj
    · obtain ⟨⟨row, hr, hearly⟩, hu⟩ := ht.without h x hold hj hp
      obtain ⟨row', hr', -⟩ := hgrows.job j row hr
      refine ⟨⟨row', hr', ?_⟩, hunsubmitted hu⟩
      obtain ⟨row₁, hr₁, hkept⟩ | ⟨hnone, -⟩ := hrow row' hr'
      · obtain rfl := Option.some.inj (hr.symm.trans hr₁)
        obtain heq | ⟨hearly', -⟩ := hkept.status
        · exact heq ▸ hearly
        · exact nomatch hearly.symm.trans hearly'
      · exact nomatch hnone.symm.trans hr
    · exact absurd hp (point_of_isEntry hentry).2.2.1
  · intro hcancelled
    obtain ⟨row', hr', hstatus⟩ := Option.map_eq_some_iff.mp hcancelled
    obtain ⟨row, hr, hkept⟩ | ⟨-, -, hqueued⟩ := hrow row' hr'
    · obtain heq | ⟨-, hasked⟩ := hkept.status
      · exact (ht.cancelled (hstatus ▸ heq ▸ jobStatus_eq hr)).imp hcontacted hunsubmitted
      · exact nomatch hasked.symm.trans hstatus
    · exact nomatch hqueued.symm.trans hstatus

theorem Contacted.moved {h : HandlerId} {x : Handler} {db' : Db} {q : Point}
    {heard : List ComputeTrace} (hc : Contacted s j) : Contacted (s.moved h x db' q heard) j := by
  obtain ⟨r, hr⟩ := hc
  exact ⟨r, hr.imp (List.mem_append_left _) (List.mem_append_left _)⟩

/-- Where no handler is on the way with a run id and the row has none, no run was returned. -/
theorem Tracked.unsubmitted (ht : Tracked j s) (hidle : Idle s j)
    (hrow : s.db.jobs.find? j = some row) (hopen : row.status.isPast = false)
    (hnone : row.computeRunId = none) : Unsubmitted s j := by
  refine ⟨fun r hr => ?_, hidle⟩
  obtain hid | ⟨h, x, hx, hj, hp⟩ := ht.held row hrow hopen r hr
  · exact nomatch hnone.symm.trans hid
  · have hbusy := hidle h x hx hj
    rw [hp] at hbusy
    cases hbusy

/-- The third transaction keeps a usable run id while the job is submitted or to be cancelled. -/
theorem saveRun_saves {h : HandlerId} {x : Handler} (hrow : s.db.jobs.find? x.job = some row)
    (hstatus : row.status = .submitting ∨ row.status = .cancelRequested)
    (hfits : runIdFits r = true) :
    ∃ row', (saveRun s h x r).db.jobs.find? x.job = some row' ∧ row'.computeRunId ≠ none := by
  have hsub := @updateJob_of_find s.db x.job [.submitting]
    (fun row => { row with computeRunId := some r, status := .running }) row hrow
  have hlate := @updateJob_of_find s.db x.job [.cancelRequested]
    (fun row => { row with computeRunId := some r }) row hrow
  obtain hstatus | hstatus := hstatus
  · simp only [saveRun, hrow, hstatus, if_pos, hfits, saveSubmission,
      hsub (List.mem_singleton.mpr hstatus)]
    exact ⟨_, find?_modifyJob hrow _, Option.some_ne_none _⟩
  · by_cases hnone : row.computeRunId = none
    · simp only [saveRun, hrow, hstatus, reduceCtorEq, if_false, if_pos, hfits, Bool.true_or,
        saveRunIdIfCancelling, Option.any_some, hnone, decide_true,
        hlate (List.mem_singleton.mpr hstatus)]
      exact ⟨_, find?_modifyJob hrow _, Option.some_ne_none _⟩
    · simp only [saveRun, hrow, hstatus, reduceCtorEq, if_false, if_pos, hfits, Bool.true_or,
        saveRunIdIfCancelling, Option.any_some, hnone, decide_false, Bool.false_eq_true]
      exact ⟨row, hrow, hnone⟩

variable {h : HandlerId} {x : Handler} {answer : Answer} {db' : Db} {q : Point}
  {heard : List ComputeTrace}

theorem Unsubmitted.moved (hu : Unsubmitted s x.job) (hx : s.handlers h = some x)
    (he : Effect s.now x.job answer s.db x.point db' q heard)
    (hrow : ∀ row', db'.jobs.find? x.job = some row' → row'.status ≠ .submitting) :
    Unsubmitted (s.moved h x db' q heard) x.job := by
  refine ⟨fun r hr => ?_, fun i y hy hj => ?_⟩
  · obtain hr | ⟨request, run, hp, -⟩ := he.returned_mem hr
    · exact hu.1 r hr
    · have hidle := hu.2 h x hx rfl
      rw [hp] at hidle
      cases hidle
  · obtain hnew | hkept := update_eq_some hy
    · obtain rfl := Option.some.inj hnew
      by_contra hbusy
      obtain hp | ⟨row', hrow', hsub⟩ := he.nextPoint.submitting (Bool.eq_true_of_not_eq_false hbusy)
      · exact nomatch (hu.2 h x hx rfl).symm.trans hp
      · exact hrow row' hrow' hsub
    · exact hu.2 i y hkept hj

theorem Tracked.unique_moved (ht : Tracked x.job s) (hx : s.handlers h = some x)
    (he : Effect s.now x.job answer s.db x.point db' q heard)
    (hok : Orderly x.job s (.advance h answer)) {r' : String}
    (hr : .returned x.job r ∈ s.trace ++ heard) (hr' : .returned x.job r' ∈ s.trace ++ heard) :
    r = r' := by
  have hsame : ∀ r request run, .returned x.job r ∈ s.trace → x.point = .creating request →
      answer = .ok run → r = run.runId := by
    rintro r request run hr hp rfl
    exact (hok.named h x request run rfl hx rfl hp).2.2 r hr
  obtain hr | ⟨request, run, hp, hans, -, rfl⟩ := he.returned_mem hr <;>
    obtain hr' | ⟨request', run', hp', hans', -, rfl⟩ := he.returned_mem hr'
  · exact ht.unique r r' hr hr'
  · exact hsame r request' run' hr hp' hans'
  · exact (hsame r' request run hr' hp hans).symm
  · rw [Except.ok.inj (hans.symm.trans hans')]

theorem Tracked.fresh_moved (ht : Tracked x.job s) (hx : s.handlers h = some x)
    (he : Effect s.now x.job answer s.db x.point db' q heard) (hgrows : Grows s.db db')
    (hqueued : ∀ row', db'.jobs.find? x.job = some row' → row'.status = .queued) :
    Unsubmitted (s.moved h x db' q heard) x.job := by
  refine Unsubmitted.moved (ht.fresh fun row hrow => ?_) hx he fun row' hrow' hsub =>
    nomatch hsub.symm.trans (hqueued row' hrow')
  obtain ⟨row', hrow', -⟩ := hgrows.job x.job row hrow
  have hstatus := hqueued row' hrow'
  obtain ⟨row₁, hrow₁, hstep⟩ := he.rowOf row' hrow'
  obtain rfl := Option.some.inj (hrow.symm.trans hrow₁)
  obtain heq | ⟨-, hsub⟩ | ⟨-, hrun, -⟩ | hpast := hstep.status
  · exact heq.symm.trans hstatus
  · exact nomatch hsub.symm.trans hstatus
  · exact nomatch hrun.symm.trans hstatus
  · rw [hstatus] at hpast
    cases hpast

theorem RowStep.keeps {p : Point} (hs : RowStep p row row') (hid : row.computeRunId ≠ none) :
    row'.computeRunId ≠ none := by
  obtain heq | ⟨r, -, heq⟩ := hs.runId
  · exact heq ▸ hid
  · rw [heq]
    nofun

/-- The run id that a step leaves in the row is the one that Compute returned. -/
theorem Tracked.row_eq (ht : Tracked x.job s) (hx : s.handlers h = some x)
    (hrow : s.db.jobs.find? x.job = some row) (hstep : RowStep x.point row row')
    (hr : .returned x.job r ∈ s.trace) (hid : row'.computeRunId ≠ none) :
    row'.computeRunId = some r := by
  obtain ⟨r', hr'⟩ := Option.ne_none_iff_exists'.mp hid
  have hreturned : .returned x.job r' ∈ s.trace := by
    obtain heq | ⟨r₂, hp, heq⟩ := hstep.runId
    · exact ht.saved row hrow r' (heq.symm.trans hr')
    · obtain rfl := Option.some.inj (heq.symm.trans hr')
      exact ht.carried h x hx rfl r₂ (by rw [hp]; rfl)
  rw [hr', ht.unique r' r hreturned hr]

theorem Tracked.held_moved (ht : Tracked x.job s) (hx : s.handlers h = some x)
    (he : Effect s.now x.job answer s.db x.point db' q heard)
    (hsaves : ∀ r row, x.point = .savingRun r → s.db.jobs.find? x.job = some row →
      row.status = .submitting ∨ row.status = .cancelRequested → runIdFits r = true →
      ∃ row', db'.jobs.find? x.job = some row' ∧ row'.computeRunId ≠ none)
    (hrow' : db'.jobs.find? x.job = some row') (hopen : row'.status.isPast = false)
    (hreturned : .returned x.job r ∈ s.trace ++ heard) :
    row'.computeRunId = some r ∨ Carried (s.moved h x db' q heard) x.job r := by
  obtain ⟨row, hrow, hstep⟩ := he.rowOf row' hrow'
  obtain hr | ⟨request, run, -, -, hq, rfl⟩ := he.returned_mem hreturned
  · obtain hstatus | ⟨hqueued, -⟩ | ⟨-, -, hid⟩ | hpast := hstep.status
    · obtain hid | ⟨i, y, hy, hj, hp⟩ := ht.held row hrow (hstatus ▸ hopen) r hr
      · exact .inl (ht.row_eq hx hrow hstep hr (hstep.keeps (by rw [hid]; nofun)))
      · by_cases hi : i = h
        · -- This handler carries the run id: the row had one, or it is saved now.
          subst hi
          obtain rfl := Option.some.inj (hx.symm.trans hy)
          refine .inl (ht.row_eq hx hrow hstep hr ?_)
          have hsaved : row.status = .submitting ∨ row.status = .cancelRequested →
              row'.computeRunId ≠ none := by
            intro h
            obtain ⟨row₁, hrow₁, hid⟩ := hsaves r row hp hrow h (ht.named r hr).2
            exact Option.some.inj (hrow'.symm.trans hrow₁) ▸ hid
          rw [hstatus] at hopen
          cases hcase : row.status with
          | queued =>
            have hu := ht.fresh fun row₁ hrow₁ =>
              Option.some.inj (hrow.symm.trans hrow₁) ▸ hcase
            exact absurd hr (hu.1 r)
          | submitting => exact hsaved (.inl hcase)
          | running => exact hstep.keeps (ht.running row hrow hcase)
          | cancelRequested => exact hsaved (.inr hcase)
          | _ =>
            rw [hcase] at hopen
            cases hopen
        · exact .inr ⟨i, y, (Function.update_of_ne hi ..).trans hy, hj, hp⟩
    · have hu := ht.fresh fun row₁ hrow₁ => Option.some.inj (hrow.symm.trans hrow₁) ▸ hqueued
      exact absurd hr (hu.1 r)
    · exact .inl (ht.row_eq hx hrow hstep hr hid)
    · exact nomatch hopen.symm.trans hpast
  · exact .inr ⟨h, _, Function.update_self .., rfl, hq⟩

theorem Tracked.without_moved (ht : Tracked x.job s) (hx : s.handlers h = some x)
    (he : Effect s.now x.job answer s.db x.point db' q heard) (hgrows : Grows s.db db')
    (hok : Orderly x.job s (.advance h answer))
    {i : HandlerId} {y : Handler} (hy : (s.moved h x db' q heard).handlers i = some y)
    (hj : y.job = x.job) (hp : y.point = .cancelWithout) :
    (∃ row, db'.jobs.find? x.job = some row ∧ row.status.isEarly = false) ∧
      Unsubmitted (s.moved h x db' q heard) x.job := by
  have hbefore : (∃ row, s.db.jobs.find? x.job = some row ∧ row.status.isEarly = false) ∧
      Unsubmitted s x.job := by
    obtain hnew | hkept := update_eq_some hy
    · obtain rfl := Option.some.inj hnew
      obtain ⟨hread, row, hrow, hstatus, hfilter⟩ := he.nextPoint.without hp
      have hnone : row.computeRunId = none := by
        cases hid : row.computeRunId with
        | none => rfl
        | some r =>
          have hne := (ht.named r (ht.saved row hrow r hid)).1
          simp [hid, hne] at hfilter
      have hidle := hok.read h x answer row rfl hx rfl hread hrow hstatus hnone
      refine ⟨⟨row, hrow, by rw [hstatus]; rfl⟩, ht.unsubmitted hidle hrow ?_ hnone⟩
      rw [hstatus]
      rfl
    · exact ht.without i y hkept hj hp
  obtain ⟨⟨row, hrow, hlate⟩, hu⟩ := hbefore
  obtain ⟨row', hrow', -⟩ := hgrows.job x.job row hrow
  obtain ⟨row₁, hrow₁, hstep⟩ := he.rowOf row' hrow'
  obtain rfl := Option.some.inj (hrow.symm.trans hrow₁)
  have hlate' : row'.status.isEarly = false := by
    by_contra hearly
    exact nomatch hlate.symm.trans (hstep.early (Bool.eq_true_of_not_eq_false hearly))
  refine ⟨⟨row', hrow', hlate'⟩, hu.moved hx he fun row₂ hrow₂ hsub => ?_⟩
  obtain rfl := Option.some.inj (hrow'.symm.trans hrow₂)
  rw [hsub] at hlate'
  cases hlate'

theorem Tracked.cancelled_moved (ht : Tracked x.job s) (hx : s.handlers h = some x)
    (he : Effect s.now x.job answer s.db x.point db' q heard)
    (hok : Orderly x.job s (.advance h answer))
    (hcancelled : jobStatus db' x.job = some .cancelled) :
    Contacted (s.moved h x db' q heard) x.job ∨ Unsubmitted (s.moved h x db' q heard) x.job := by
  obtain ⟨row', hrow', hstatus⟩ := Option.map_eq_some_iff.mp hcancelled
  obtain ⟨row, hrow, hstep⟩ := he.rowOf row' hrow'
  have hmoved : Contacted s x.job ∨ Unsubmitted s x.job →
      Contacted (s.moved h x db' q heard) x.job ∨ Unsubmitted (s.moved h x db' q heard) x.job := by
    refine fun h => h.imp Contacted.moved fun hu => hu.moved hx he fun row₁ hrow₁ hsub => ?_
    obtain rfl := Option.some.inj (hrow'.symm.trans hrow₁)
    exact nomatch hsub.symm.trans hstatus
  obtain hwas | haccount | ⟨hunseen, hasked⟩ | hp := hstep.cancelled hstatus
  · exact hmoved (ht.cancelled (hwas ▸ jobStatus_eq hrow))
  · exact .inl (ht.account h x hx rfl haccount).moved
  · obtain ⟨hidle, hsent⟩ := hok.unseen h x answer row rfl hx rfl hunseen hrow hasked
    cases hid : row.computeRunId with
    | some r => exact .inl (Contacted.moved ⟨r, hsent r hid⟩)
    | none => exact hmoved (.inr (ht.unsubmitted hidle hrow (by rw [hasked]; rfl) hid))
  · exact hmoved (.inr (ht.without h x hx rfl hp).2)

theorem Tracked.advanced (ht : Tracked x.job s) (hx : s.handlers h = some x)
    (he : Effect s.now x.job answer s.db x.point db' q heard) (hgrows : Grows s.db db')
    (hok : Orderly x.job s (.advance h answer))
    (hsaves : ∀ r row, x.point = .savingRun r → s.db.jobs.find? x.job = some row →
      row.status = .submitting ∨ row.status = .cancelRequested → runIdFits r = true →
      ∃ row', db'.jobs.find? x.job = some row' ∧ row'.computeRunId ≠ none) :
    Tracked x.job (s.moved h x db' q heard) where
  unique _ _ hr hr' := ht.unique_moved hx he hok hr hr'
  named r hr := by
    obtain hold | ⟨request, run, hp, rfl, -, rfl⟩ := he.returned_mem hr
    · exact ht.named r hold
    · have hnamed := hok.named h x request run rfl hx rfl hp
      exact ⟨hnamed.1, hnamed.2.1⟩
  returned r hr := by
    refine List.mem_append_left _ ?_
    obtain hold | hcarry := he.account_mem hr
    · exact ht.returned r hold
    · exact ht.carried h x hx rfl r hcarry
  saved row' hrow' r hrun := by
    refine List.mem_append_left _ ?_
    obtain ⟨row, hrow, hstep⟩ := he.rowOf row' hrow'
    obtain hid | ⟨runId, hp, hid⟩ := hstep.runId
    · exact ht.saved row hrow r (hid.symm.trans hrun)
    · obtain rfl := Option.some.inj (hid.symm.trans hrun)
      exact ht.carried h x hx rfl runId (by rw [hp]; rfl)
  carried i y hy hj r hrun := by
    obtain hnew | hkept := update_eq_some hy
    · obtain rfl := Option.some.inj hnew
      obtain hp | ⟨row, hrow, hid⟩ | hr := he.nextPoint.carried r hrun
      · exact List.mem_append_left _ (ht.carried h x hx rfl r hp)
      · exact List.mem_append_left _ (ht.saved row hrow r hid)
      · exact List.mem_append_right _ hr
    · exact List.mem_append_left _ (ht.carried i y hkept hj r hrun)
  fresh := ht.fresh_moved hx he hgrows
  running row' hrow' hrunning := by
    obtain ⟨row, hrow, hstep⟩ := he.rowOf row' hrow'
    obtain heq | ⟨-, hsub⟩ | ⟨-, -, hid⟩ | hpast := hstep.status
    · exact hstep.keeps (ht.running row hrow (heq.symm.trans hrunning))
    · exact nomatch hsub.symm.trans hrunning
    · exact hid
    · rw [hrunning] at hpast
      cases hpast
  held _ hrow' hopen _ hr := ht.held_moved hx he hsaves hrow' hopen hr
  account i y hy hj haccount := by
    obtain hnew | hkept := update_eq_some hy
    · obtain rfl := Option.some.inj hnew
      obtain ⟨r, hr⟩ := he.nextPoint.account haccount
      exact ⟨r, hr.imp (List.mem_append_right _) (List.mem_append_right _)⟩
    · exact (ht.account i y hkept hj haccount).moved
  without _ _ hy hj hp := ht.without_moved hx he hgrows hok hy hj hp
  cancelled hcancelled := ht.cancelled_moved hx he hok hcancelled

/-- Only its own step and a crash take a handler from the point where it saves the run id. -/
theorem saving_of_step {cfg : Settings} {a : Action} (hstep : step cfg s a = some s')
    (hx : s.handlers h = some x) (hp : x.point = .savingRun r) (hcrash : a ≠ .crash h)
    (hadvance : ∀ answer, a ≠ .advance h answer) :
    s'.handlers h = some x := by
  have hne : ∀ {k next}, k ≠ h → Function.update s.handlers k next h = some x :=
    fun hk => (Function.update_of_ne (Ne.symm hk) ..).trans hx
  cases a with
  | tick elapsed => exact Option.some.inj hstep ▸ hx
  | create job owner outputKind outputSpec computeRequest activeMember =>
    obtain ⟨jobs, -, hreserved⟩ := Option.bind_eq_some_iff.mp hstep
    split at hreserved
    · exact Option.some.inj hreserved ▸ hx
    · cases hreserved
  | requestCancel job =>
    obtain ⟨db, -, rfl⟩ := Option.map_eq_some_iff.mp hstep
    exact hx
  | softDelete job retained =>
    obtain ⟨db, -, rfl⟩ := Option.map_eq_some_iff.mp hstep
    exact hx
  | schedule => exact Option.some.inj hstep ▸ hx
  | deliver k job type =>
    simp only [step, Bool.and_eq_true, Option.ite_none_right_eq_some] at hstep
    obtain ⟨⟨hfree, -⟩, heq⟩ := hstep
    refine Option.some.inj heq ▸ hne fun hk => ?_
    rw [hk, hx] at hfree
    cases hfree
  | advance k answer =>
    obtain ⟨y, -, hadv⟩ := Option.bind_eq_some_iff.mp hstep
    obtain ⟨db', q, heard, rfl, -⟩ := effect_of_advance hadv
    exact hne fun hk => hadvance answer (by rw [hk])
  | settle k disposition =>
    obtain ⟨y, hy, hs⟩ := Option.bind_eq_some_iff.mp hstep
    by_cases hk : k = h
    · subst hk
      obtain rfl := Option.some.inj (hx.symm.trans hy)
      simp [settle, hp] at hs
    · unfold settle at hs
      dsimp only at hs
      split at hs
      · exact Option.some.inj hs ▸ hne hk
      · exact Option.some.inj hs ▸ hne hk
      · obtain ⟨code, -, rfl⟩ := Option.map_eq_some_iff.mp hs
        split <;> exact hne hk
      · cases hs
  | crash k =>
    simp only [step, Option.ite_none_right_eq_some] at hstep
    exact Option.some.inj hstep.2 ▸ hne fun hk => hcrash (by rw [hk])

end Step

/-- Every orderly step keeps the job tracked. -/
theorem tracked_of_step {cfg : Settings} {j : JobId} {s s' : State} {a : Action}
    (ht : Tracked j s) (hc : Consistent cfg s) (hstep : step cfg s a = some s')
    (hok : Orderly j s a) : Tracked j s' := by
  have hm := moved_of_step hstep
  have hgrows := (consistent_of_moved hc hm).2
  by_cases hown : ∃ h x answer, a = .advance h answer ∧ s.handlers h = some x ∧ x.job = j
  · obtain ⟨h, x, answer, rfl, hx, rfl⟩ := hown
    obtain ⟨y, hy, hadv⟩ := Option.bind_eq_some_iff.mp hstep
    obtain rfl := Option.some.inj (hx.symm.trans hy)
    obtain ⟨db', q, heard, rfl, he⟩ := effect_of_advance hadv
    refine ht.advanced hx he hgrows hok fun r row hp hrow hstatus hfits => ?_
    rw [advance, hp] at hadv
    have hdb : (saveRun s h x r).db = db' := congrArg State.db (Option.some.inj hadv)
    exact hdb ▸ saveRun_saves hrow hstatus hfits
  · have hsaving : ∀ r, Carried s j r → Carried s' j r := by
      rintro r ⟨h, x, hx, hj, hp⟩
      refine ⟨h, x, saving_of_step hstep hx hp ?_ ?_, hj, hp⟩
      · exact fun ha => hok.saves h x r ha hx hj hp
      · exact fun answer ha => hown ⟨h, x, answer, ha, hx, hj⟩
    have hsame : ∀ {db' : Db}, db'.jobs.find? j = s.db.jobs.find? j →
        ∀ row', db'.jobs.find? j = some row' →
          (∃ row, s.db.jobs.find? j = some row ∧ RowKept row row') ∨
          s.db.jobs.find? j = none ∧ row'.computeRunId = none ∧ row'.status = .queued :=
      fun heq row' hrow' => .inl ⟨row', heq.symm.trans hrow', .refl row'⟩
    cases hm
    case idle events now handlers hhandlers =>
      exact ht.quiet (fun _ _ => Iff.rfl) (fun h x hx _ => hhandlers h x hx) hsaving hgrows
        (hsame rfl)
    case created job owner outputKind outputSpec computeRequest activeMember jobs db hjobs hres =>
      obtain ⟨-, reservations, -, rfl⟩ := reserve_eq_ok hres
      refine ht.quiet (fun _ _ => Iff.rfl) (fun h x hx _ => .inl hx) hsaving hgrows
        fun row' hrow' => ?_
      have hfind := Table.find?_insert hjobs j
      by_cases hj : j = job
      · subst hj
        rw [if_pos rfl] at hfind
        obtain rfl := Option.some.inj (hfind.symm.trans hrow')
        exact .inr ⟨(Table.insert?_eq_some hjobs).1, rfl, rfl⟩
      · rw [if_neg hj] at hfind
        exact .inl ⟨row', hfind.symm.trans hrow', .refl row'⟩
    case cancelRequested job db hset =>
      obtain ⟨row, hrow, hmem, rfl⟩ := updateJob_eq_some hset
      refine ht.quiet (fun _ _ => Iff.rfl) (fun h x hx _ => .inl hx) hsaving hgrows
        fun row' hrow' => ?_
      by_cases hj : j = job
      · subst hj
        obtain rfl := Option.some.inj ((find?_modifyJob hrow _).symm.trans hrow')
        refine .inl ⟨row, hrow, rfl, .inr ⟨?_, rfl⟩⟩
        revert hmem
        cases row.status <;> simp [JobStatus.isEarly]
      · exact hsame (Table.find?_modify_ne _ _ hj) row' hrow'
    case deleted hdelete =>
      obtain ⟨a, -, -, rfl⟩ := softDelete_eq_some hdelete
      exact ht.quiet (fun _ _ => Iff.rfl) (fun h x hx _ => .inl hx) hsaving hgrows (hsame rfl)
    case advanced h x answer db' q heard hx he =>
      have hj : x.job ≠ j := fun hj => hown ⟨h, x, answer, rfl, hx, hj⟩
      refine ht.quiet (fun e hej => ?_) (fun i y hy hij => ?_) hsaving hgrows
        (hsame (he.touches.jobs j (Ne.symm hj)))
      · have hnot : e ∉ heard := by
          intro hmem
          obtain ⟨_, _, -, -, -, rfl⟩ | ⟨_, -, rfl | rfl⟩ := he.hears e hmem <;> exact hj hej
        exact List.mem_append.trans (or_iff_left hnot)
      · obtain hnew | hkept := update_eq_some hy
        · obtain rfl := Option.some.inj hnew
          exact absurd hij hj
        · exact .inl hkept

/-! ## Every run -/

/-- Nothing is cancelled at first. -/
theorem tracked_init {j : JobId} {s : State} (h : Init s) : Tracked j s := by
  obtain ⟨hdb, hhandlers, htrace⟩ := h
  have hjob : s.db.jobs.find? j = none := by rw [hdb]; rfl
  have hnone : ∀ e, e ∉ s.trace := fun e he => by rw [htrace] at he; cases he
  have hidle : ∀ h x, s.handlers h ≠ some x := fun h x hx => by rw [hhandlers] at hx; cases hx
  have hrow : ∀ {row}, s.db.jobs.find? j ≠ some row := fun hrow => nomatch hjob.symm.trans hrow
  refine ⟨fun r _ hr => absurd hr (hnone _), fun r hr => absurd hr (hnone _), fun r hr => ?_,
    fun row h => absurd h hrow, fun h x hx => absurd hx (hidle h x),
    fun _ => ⟨fun r => hnone _, fun h x hx => absurd hx (hidle h x)⟩,
    fun row h => absurd h hrow, fun row h => absurd h hrow,
    fun h x hx => absurd hx (hidle h x), fun h x hx => absurd hx (hidle h x),
    fun hcancelled => ?_⟩
  · exact absurd hr (not_or.mpr ⟨hnone _, hnone _⟩)
  · rw [jobStatus, hjob] at hcancelled
    cases hcancelled

/-- An orderly step that can be tested: the first answer to a create call is the only one, no
handler dies, and none cancels without a run id. -/
def plainlyOrderly (j : JobId) (s : State) : Action → Bool
  | .advance h answer => (s.handlers h).all fun x => x.job ≠ j ||
    !(x.point.cancelsUnseen && jobStatus s.db j = some .cancelRequested) &&
      (x.point.isSubmitting || (s.db.jobs.find? j).all (·.computeRunId ≠ none) ||
        jobStatus s.db j ≠ some .cancelRequested) &&
      (!x.point.isSubmitting || s.trace.isEmpty &&
        (match answer with
          | .ok run => run.runId ≠ "" && runIdFits run.runId
          | .error _ => true) || x.point.runId?.isSome)
  | .crash _ => false
  | _ => true

theorem orderly_of_plainly {j : JobId} {s : State} {a : Action}
    (h : plainlyOrderly j s a = true) : Orderly j s a where
  named := by
    rintro k x request run rfl hx hj hp
    simp only [plainlyOrderly, hx, Option.all_some, hj, hp, Point.isSubmitting] at h
    have hempty : s.trace = [] ∧ run.runId ≠ "" ∧ runIdFits run.runId = true := by
      simp_all [Point.runId?]
    refine ⟨hempty.2.1, hempty.2.2, fun runId hrun => ?_⟩
    rw [hempty.1] at hrun
    cases hrun
  saves := by
    rintro k x runId rfl
    cases h
  read := by
    rintro k x answer row rfl hx hj hp hrow hstatus hnone
    simp [plainlyOrderly, hx, hj, hp, hrow, jobStatus_eq hrow, hstatus, hnone,
      Point.isSubmitting] at h
  unseen := by
    rintro k x answer row rfl hx hj hp hrow hstatus
    simp [plainlyOrderly, hx, hj, hp, jobStatus_eq hrow, hstatus] at h

/-- The steps that the claim is about: no expiry, no dead letter. -/
def Action.isOrdinary : Action → Bool
  | .create .. | .requestCancel _ | .advance .. | .settle _ .keep | .settle _ .done => true
  | .deliver _ _ type => type ≠ .quotaExpired
  | _ => false

/-- The job is cancelled while its create call is in flight; the answer finds a job that
has ended. -/
def orphanRun : List Action :=
  createImage :: delivery 0 .created [silent] ++ .requestCancel 1 ::
    delivery 1 .cancelRequested [silent, silent] ++
    [.settle 1 .done, .advance 0 (.ok (imageRun "queued")), .advance 0 silent, .settle 0 .done]

end FractalStudio.Studio
