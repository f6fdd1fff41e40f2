import FractalStudio.Lib.Transition
import FractalStudio.Runner.JobRunner

/-!
# Cancelling a background render

The steps of `mapRenderRoute` and of its `execute`, one for each access to the runner, between
which other threads call `requestCancel`. The worker tests its token without the runner's lock
and clears the cancelable flag in a later step.
-/
namespace FractalStudio.Runner

open Transition

/-- What the worker does next. -/
inductive Stage where
  /-- After `createRun`. -/
  | created
  /-- After `setCancelable(true)`, before the first test of the token. -/
  | opened
  /-- Before `tryAcquire` of the heavy lease. -/
  | admitted
  /-- Before `setStatus("running")`. -/
  | leased
  /-- Inside `renderMapImage`. -/
  | rendering
  /-- Before the last test of the token. -/
  | rendered
  /-- After it, before `setCancelable(false)`. -/
  | checked
  /-- Before `write_png`. -/
  | shielded
  /-- Before `addArtifact`. -/
  | encoded
  /-- Before the `setCancelable(false)` that precedes a final status. -/
  | closing (status : RunStatus)
  /-- Before `setStatus` of the final status. -/
  | settling (status : RunStatus)
  | ended
  deriving DecidableEq

structure Job where
  stillExport : Bool
  imagePath : String
  stage : Stage
  deriving DecidableEq

/-- The store, and the job of each run. -/
structure State where
  store : Store
  jobs : RunId → Option Job

/-- How `renderMapImage` ends. -/
inductive Render where
  | returned
  /-- A test of the token inside the render threw "cancelled". -/
  | cancelled
  | threw
  deriving DecidableEq

inductive Action where
  | create (id : RunId) (stillExport : Bool) (body outputDir imagePath : String) (started : Int)
      (write : Bool)
  | openRun (id : RunId)
  /-- `shouldCancel` also reads the preempt flag. -/
  | precheck (id : RunId) (preempted : Bool)
  | acquire (id : RunId) (granted : Bool)
  | start (id : RunId) (now : Int) (write : Bool)
  | render (id : RunId) (preempted : Bool) (result : Render)
  | check (id : RunId) (preempted : Bool)
  | protect (id : RunId)
  | encode (id : RunId) (written : Bool)
  | addArtifact (id : RunId) (write : Bool)
  | close (id : RunId)
  | settle (id : RunId) (now : Int) (write : Bool)
  | requestCancel (id : RunId)

def State.put (s : State) (id : RunId) (job : Job) : State :=
  { s with jobs := Function.update s.jobs id (some job) }

def State.stage (s : State) (id : RunId) (job : Job) (stage : Stage) : State :=
  s.put id { job with stage := stage }

def State.token (s : State) (id : RunId) : Bool := (s.store.runs id).any RunRecord.cancelToken

/-- `catch (const std::exception&)`: a cancellation or a failure. -/
def State.caught (s : State) (id : RunId) (job : Job) (cancelled : Bool) : State :=
  s.stage id job (.closing (if cancelled then .cancelled else .failed))

def workerStep (s : State) (id : RunId) (job : Job) : Action → Option State
  | .openRun _ =>
    if job.stage ≠ .created then none
    else if job.stillExport then
      some ({ s with store := (setCancelable s.store id true).1 }.stage id job .opened)
    else some (s.stage id job .opened)
  | .precheck _ preempted =>
    if job.stage ≠ .opened then none
    else if preempted || s.token id then some (s.caught id job true)
    else some (s.stage id job .admitted)
  | .acquire _ granted =>
    if job.stage ≠ .admitted then none
    else if job.stillExport && !granted then some (s.caught id job false)
    else some (s.stage id job .leased)
  | .start _ now write =>
    if job.stage ≠ .leased then none
    else
      let r := setStatus s.store id .running now write
      -- `execute` sets the status outside its try block.
      some ({ s with store := r.1 }.stage id job
        (if r.2 = Outcome.returned then .rendering else .ended))
  | .render _ preempted result =>
    if job.stage ≠ .rendering then none
    else
      match result with
      | .returned => some (s.stage id job .rendered)
      | .cancelled => if preempted || s.token id then some (s.caught id job true) else none
      | .threw => some (s.caught id job false)
  | .check _ preempted =>
    if job.stage ≠ .rendered then none
    else if preempted || s.token id then some (s.caught id job true)
    else some (s.stage id job .checked)
  | .protect _ =>
    if job.stage ≠ .checked then none
    else if job.stillExport then
      some ({ s with store := (setCancelable s.store id false).1 }.stage id job .shielded)
    else some (s.stage id job .shielded)
  | .encode _ written =>
    if job.stage ≠ .shielded then none
    else if written then some (s.stage id job .encoded) else some (s.caught id job false)
  | .addArtifact _ write =>
    if job.stage ≠ .encoded then none
    else
      let r := addArtifact s.store id ⟨"map", job.imagePath, "image"⟩ write
      some ({ s with store := r.1 }.stage id job
        (.closing (if r.2 = Outcome.returned then .completed else .failed)))
  | .close _ =>
    match job.stage with
    | .closing status =>
      some ({ s with store := (setCancelable s.store id false).1 }.stage id job (.settling status))
    | _ => none
  | .settle _ now write =>
    match job.stage with
    | .settling status =>
      let r := setStatus s.store id status now write
      -- Inside the try block a throwing `setStatus("completed")` is a failure of the render.
      some ({ s with store := r.1 }.stage id job
        (if r.2 = Outcome.returned ∨ status ≠ RunStatus.completed then .ended else .closing .failed))
    | _ => none
  | _ => none

def Action.run : Action → RunId
  | .create id .. => id
  | .openRun id => id
  | .precheck id _ => id
  | .acquire id _ => id
  | .start id .. => id
  | .render id .. => id
  | .check id _ => id
  | .protect id => id
  | .encode id _ => id
  | .addArtifact id _ => id
  | .close id => id
  | .settle id .. => id
  | .requestCancel id => id

def step (s : State) (a : Action) : Option State :=
  match a with
  | .create id stillExport body outputDir imagePath started write =>
    let module := if stillExport then "map-export" else "map"
    if (s.jobs id).isSome then none
    else
      (createRun s.store id module body outputDir started write).map fun r =>
        if r.2 = Outcome.returned then
          { s with store := r.1 }.put id ⟨stillExport, imagePath, .created⟩
        else { s with store := r.1 }
  | .requestCancel id =>
    match requestCancel s.store id with
    | some r => some { s with store := r.1 }
    | none => some s
  | a => (s.jobs a.run).bind fun job => workerStep s a.run job a

def NoRuns (s : State) : Prop := (∀ id, s.store.runs id = none) ∧ ∀ id, s.jobs id = none

/-- No request finds the run cancelable between the last test of its token and the clearing of the
flag. -/
def timely (s : State) : Action → Bool
  | .requestCancel id => !((s.jobs id).any (fun job => job.stage = .checked) &&
      (s.store.runs id).any RunRecord.cancelable)
  | _ => true

def Timely (s : State) (a : Action) : Prop := timely s a = true

/-! ## The token of a run that completes -/

/-- Past the last test of the token, on the way to `completed`. -/
def Stage.late : Stage → Bool
  | .checked => true
  | .shielded => true
  | .encoded => true
  | .closing .completed => true
  | .settling .completed => true
  | _ => false

/-- The cancelable flag has been cleared. -/
def Stage.shut : Stage → Bool
  | .shielded => true
  | .encoded => true
  | .closing .completed => true
  | .settling _ => true
  | _ => false

/-- A job fits the run that it works on. -/
structure Fits (job : Job) (run : RunRecord) (row : Option RunRow) : Prop where
  late : job.stage.late = true → run.cancelToken = false
  shut : job.stage.shut = true → run.cancelable = false
  plain : job.stillExport = false → run.cancelable = false
  token : run.cancelToken = true → run.status ≠ .completed
  done : ∀ r, row = some r → r.status = .completed →
    run.status = .completed ∧ job.stage = .ended

def Inv (s : State) : Prop :=
  ∀ id job, s.jobs id = some job → ∃ run, s.store.runs id = some run ∧
    Fits job run (s.store.rows id)

section
variable {s s' : State} {id : RunId} {job : Job} {run : RunRecord} {row : Option RunRow}

theorem late_cases {stage : Stage} (h : stage.late = true) :
    stage = .checked ∨ stage.shut = true := by
  cases stage with
  | checked => exact .inl rfl
  | shielded => exact .inr rfl
  | encoded => exact .inr rfl
  | closing status =>
    cases status with
    | completed => exact .inr rfl
    | queued => cases h
    | running => cases h
    | failed => cases h
    | cancelled => cases h
  | settling status => exact .inr rfl
  | created => cases h
  | opened => cases h
  | admitted => cases h
  | leased => cases h
  | rendering => cases h
  | rendered => cases h
  | ended => cases h

theorem Fits.move (h : Fits job run row) (hended : job.stage ≠ .ended) {stage : Stage}
    (hlate : stage.late = true → run.cancelToken = false)
    (hshut : stage.shut = true → run.cancelable = false) :
    Fits { job with stage := stage } run row where
  late := hlate
  shut := hshut
  plain := h.plain
  token := h.token
  done r hr hc := absurd (h.done r hr hc).2 hended

theorem Fits.setCancelable (h : Fits job run row) (hended : job.stage ≠ .ended) {stage : Stage}
    {b : Bool} (hlate : stage.late = true → run.cancelToken = false)
    (hopen : b = true → job.stillExport = true ∧ stage.shut = false) :
    Fits { job with stage := stage } { run with cancelable := b } row where
  late := hlate
  shut hs := by
    cases b with
    | false => rfl
    | true => rw [(hopen rfl).2] at hs; cases hs
  plain hp := by
    cases b with
    | false => rfl
    | true => rw [(hopen rfl).1] at hp; cases hp
  token := h.token
  done r hr hc := absurd (h.done r hr hc).2 hended

theorem Inv.write (h : Inv s) (hjobs : s'.jobs = Function.update s.jobs id (some job))
    (hruns : ∀ j ≠ id, s'.store.runs j = s.store.runs j)
    (hrows : ∀ j ≠ id, s'.store.rows j = s.store.rows j)
    (hrun : s'.store.runs id = some run) (hfits : Fits job run (s'.store.rows id)) : Inv s' := by
  intro j job' hj
  rw [hjobs] at hj
  by_cases hid : j = id
  · subst hid
    rw [Function.update_self] at hj
    obtain rfl := Option.some.inj hj
    exact ⟨run, hrun, hfits⟩
  · rw [Function.update_of_ne hid] at hj
    rw [hruns j hid, hrows j hid]
    exact h j job' hj

theorem Inv.stage (h : Inv s) (hrun : s.store.runs id = some run) {stage : Stage}
    (hfits : Fits { job with stage := stage } run (s.store.rows id)) :
    Inv (s.stage id job stage) :=
  h.write rfl (fun _ _ => rfl) (fun _ _ => rfl) hrun hfits

theorem Inv.setCancelable (h : Inv s) (hrun : s.store.runs id = some run)
    (hf : Fits job run (s.store.rows id)) (hended : job.stage ≠ .ended) {stage : Stage} {b : Bool}
    (hlate : stage.late = true → run.cancelToken = false)
    (hopen : b = true → job.stillExport = true ∧ stage.shut = false) :
    Inv ({ s with store := (setCancelable s.store id b).1 }.stage id job stage) := by
  rw [setCancelable_found hrun]
  exact h.write rfl (fun _ hj => put_runs_of_ne hj _) (fun _ _ => rfl) (put_runs_self _)
    (hf.setCancelable hended hlate hopen)

theorem Inv.setStatus (h : Inv s) (hrun : s.store.runs id = some run)
    (hf : Fits job run (s.store.rows id)) (hended : job.stage ≠ .ended) {stage : Stage}
    {status : RunStatus} {now : Int} {write : Bool} (hlate : stage.late = false)
    (hshut : stage.shut = false) (htoken : status = .completed → run.cancelToken = false)
    (hdone : status = .completed → write = true → stage = .ended) :
    Inv ({ s with store := (setStatus s.store id status now write).1 }.stage id job stage) := by
  have hstart : ∀ r, s.store.rows id = some r → r.status ≠ .completed := fun r hr hc =>
    hended (hf.done r hr hc).2
  have hfits : ∀ row, (∀ r, row = some r → r.status = .completed →
      status = .completed ∧ stage = .ended) →
      Fits { job with stage := stage } { run with status := status } row := by
    intro row hrow
    refine ⟨fun hl => ?_, fun hs => ?_, hf.plain, fun ht hc => ?_, fun r hr hc => hrow r hr hc⟩
    · rw [hlate] at hl
      cases hl
    · rw [hshut] at hs
      cases hs
    · rw [htoken hc] at ht
      cases ht
  cases write with
  | false =>
    rw [setStatus_threw hrun]
    refine h.write rfl (fun _ hj => put_runs_of_ne hj _) (fun _ _ => rfl) (put_runs_self _) ?_
    exact hfits _ fun r hr hc => absurd hc (hstart r hr)
  | true =>
    rw [setStatus_returned hrun]
    refine h.write rfl (fun _ hj => put_runs_of_ne hj _)
      (fun _ hj => Function.update_of_ne hj _ s.store.rows) (put_runs_self _) ?_
    refine hfits _ fun r hr hc => ?_
    have hrow := Option.some.inj ((Function.update_self id _ s.store.rows).symm.trans hr)
    have hcompleted : status = .completed := by rw [← hc, ← hrow, RunRecord.row]
    exact ⟨hcompleted, hdone hcompleted rfl⟩

theorem token_eq (hrun : s.store.runs id = some run) : s.token id = run.cancelToken := by
  rw [State.token, hrun]
  rfl

theorem Inv.early (h : Inv s) (hrun : s.store.runs id = some run)
    (hf : Fits job run (s.store.rows id)) (hended : job.stage ≠ .ended) {stage : Stage}
    (hlate : stage.late = false) (hshut : stage.shut = false) : Inv (s.stage id job stage) := by
  refine h.stage hrun (hf.move hended (fun hl => ?_) fun hs => ?_)
  · rw [hlate] at hl
    cases hl
  · rw [hshut] at hs
    cases hs

theorem Inv.caught (h : Inv s) (hrun : s.store.runs id = some run)
    (hf : Fits job run (s.store.rows id)) (hended : job.stage ≠ .ended) (cancelled : Bool) :
    Inv (s.caught id job cancelled) := by
  refine h.early hrun hf hended ?_ ?_
  · cases cancelled <;> rfl
  · cases cancelled <;> rfl

/-- A step of a worker keeps the invariant. -/
theorem Inv.worker {a : Action} (h : Inv s) (hjob : s.jobs id = some job)
    (hs : workerStep s id job a = some s') : Inv s' := by
  obtain ⟨run, hrun, hf⟩ := h id job hjob
  cases a with
  | create => cases hs
  | requestCancel => cases hs
  | openRun =>
    rw [workerStep] at hs
    obtain ⟨hstage, hs⟩ := eq_of_unless hs
    have hended : job.stage ≠ .ended := by rw [hstage]; decide
    split at hs
    · next hstill =>
      obtain rfl := Option.some.inj hs
      exact h.setCancelable hrun hf hended (fun hl => by cases hl) fun _ => ⟨hstill, rfl⟩
    · obtain rfl := Option.some.inj hs
      exact h.early hrun hf hended rfl rfl
  | precheck _ preempted =>
    rw [workerStep] at hs
    obtain ⟨hstage, hs⟩ := eq_of_unless hs
    have hended : job.stage ≠ .ended := by rw [hstage]; decide
    split at hs
    · obtain rfl := Option.some.inj hs
      exact h.caught hrun hf hended true
    · obtain rfl := Option.some.inj hs
      exact h.early hrun hf hended rfl rfl
  | acquire _ granted =>
    rw [workerStep] at hs
    obtain ⟨hstage, hs⟩ := eq_of_unless hs
    have hended : job.stage ≠ .ended := by rw [hstage]; decide
    split at hs
    · obtain rfl := Option.some.inj hs
      exact h.caught hrun hf hended false
    · obtain rfl := Option.some.inj hs
      exact h.early hrun hf hended rfl rfl
  | start _ now write =>
    rw [workerStep] at hs
    obtain ⟨hstage, hs⟩ := eq_of_unless hs
    have hended : job.stage ≠ .ended := by rw [hstage]; decide
    obtain rfl := Option.some.inj hs
    refine h.setStatus hrun hf hended ?_ ?_ (fun hc => by cases hc) fun hc => by cases hc
    · split <;> rfl
    · split <;> rfl
  | render _ preempted result =>
    cases result with
    | returned =>
      rw [workerStep] at hs
      obtain ⟨hstage, hs⟩ := eq_of_unless hs
      have hended : job.stage ≠ .ended := by rw [hstage]; decide
      obtain rfl := Option.some.inj hs
      exact h.early hrun hf hended rfl rfl
    | cancelled =>
      rw [workerStep] at hs
      obtain ⟨hstage, hs⟩ := eq_of_unless hs
      have hended : job.stage ≠ .ended := by rw [hstage]; decide
      split at hs
      · obtain rfl := Option.some.inj hs
        exact h.caught hrun hf hended true
      · cases hs
    | threw =>
      rw [workerStep] at hs
      obtain ⟨hstage, hs⟩ := eq_of_unless hs
      have hended : job.stage ≠ .ended := by rw [hstage]; decide
      obtain rfl := Option.some.inj hs
      exact h.caught hrun hf hended false
  | check _ preempted =>
    rw [workerStep] at hs
    obtain ⟨hstage, hs⟩ := eq_of_unless hs
    have hended : job.stage ≠ .ended := by rw [hstage]; decide
    split at hs
    · obtain rfl := Option.some.inj hs
      exact h.caught hrun hf hended true
    · next hclear =>
      obtain rfl := Option.some.inj hs
      rw [token_eq hrun, Bool.or_eq_true, not_or] at hclear
      have htoken : run.cancelToken = false := Bool.eq_false_iff.mpr hclear.2
      exact h.stage hrun (hf.move hended (fun _ => htoken) fun hs => by cases hs)
  | protect =>
    rw [workerStep] at hs
    obtain ⟨hstage, hs⟩ := eq_of_unless hs
    have hended : job.stage ≠ .ended := by rw [hstage]; decide
    have htoken : run.cancelToken = false := hf.late (by rw [hstage]; rfl)
    split at hs
    · obtain rfl := Option.some.inj hs
      exact h.setCancelable hrun hf hended (fun _ => htoken) fun hb => by cases hb
    · next hplain =>
      obtain rfl := Option.some.inj hs
      have hshut : run.cancelable = false := hf.plain (Bool.eq_false_iff.mpr hplain)
      exact h.stage hrun (hf.move hended (fun _ => htoken) fun _ => hshut)
  | encode _ written =>
    rw [workerStep] at hs
    obtain ⟨hstage, hs⟩ := eq_of_unless hs
    have hended : job.stage ≠ .ended := by rw [hstage]; decide
    split at hs
    · obtain rfl := Option.some.inj hs
      refine h.stage hrun (hf.move hended (fun _ => hf.late ?_) fun _ => hf.shut ?_)
      · rw [hstage]; rfl
      · rw [hstage]; rfl
    · obtain rfl := Option.some.inj hs
      exact h.caught hrun hf hended false
  | addArtifact _ write =>
    rw [workerStep] at hs
    obtain ⟨hstage, hs⟩ := eq_of_unless hs
    have hended : job.stage ≠ .ended := by rw [hstage]; decide
    have htoken : run.cancelToken = false := hf.late (by rw [hstage]; rfl)
    have hshut : run.cancelable = false := hf.shut (by rw [hstage]; rfl)
    obtain rfl := Option.some.inj hs
    obtain ⟨hruns, hrows⟩ := addArtifact_found hrun ⟨"map", job.imagePath, "image"⟩ write
    refine h.write rfl (fun j hj => ?_) (fun j _ => congrFun hrows j)
      ((congrFun hruns id).trans (put_runs_self _)) ?_
    · exact (congrFun hruns j).trans (put_runs_of_ne hj _)
    · refine ⟨fun _ => htoken, fun _ => hshut, hf.plain, hf.token, fun r hr hc => ?_⟩
      have hrow : s.store.rows id = some r := (congrFun hrows id).symm.trans hr
      exact absurd (hf.done r hrow hc).2 hended
  | close =>
    rw [workerStep] at hs
    split at hs
    · next status hstage =>
      have hended : job.stage ≠ .ended := by rw [hstage]; exact fun hc => by cases hc
      obtain rfl := Option.some.inj hs
      refine h.setCancelable hrun hf hended (fun hl => hf.late ?_) fun hb => by cases hb
      rw [hstage]
      cases status with
      | completed => rfl
      | queued => cases hl
      | running => cases hl
      | failed => cases hl
      | cancelled => cases hl
    · cases hs
  | settle _ now write =>
    rw [workerStep] at hs
    split at hs
    · next status hstage =>
      have hended : job.stage ≠ .ended := by rw [hstage]; exact fun hc => by cases hc
      obtain rfl := Option.some.inj hs
      refine h.setStatus hrun hf hended ?_ ?_ (fun hc => hf.late ?_) fun _ hw => if_pos (.inl ?_)
      · split <;> rfl
      · split <;> rfl
      · rw [hstage, hc]; rfl
      · rw [hw, setStatus_returned hrun]
    · cases hs

theorem Inv.requestCancel (h : Inv s) (hok : Timely s (.requestCancel id))
    (hs : step s (.requestCancel id) = some s') : Inv s' := by
  rw [step] at hs
  cases hrun : s.store.runs id with
  | none =>
    rw [Runner.requestCancel, hrun] at hs
    exact Option.some.inj hs ▸ h
  | some run =>
    obtain ⟨r, hr, ⟨-, hsame⟩ | ⟨-, hactive, hcancelable, hput⟩⟩ := requestCancel_found hrun
    · rw [hr] at hs
      obtain rfl := Option.some.inj hs
      rw [hsame]
      exact h
    · rw [hr] at hs
      obtain rfl := Option.some.inj hs
      rw [hput]
      intro j job hj
      by_cases hid : j = id
      · subst hid
        obtain ⟨run', hrun', hf⟩ := h j job hj
        obtain rfl := Option.some.inj (hrun.symm.trans hrun')
        refine ⟨_, put_runs_self _, fun hl => ?_, hf.shut, hf.plain, fun _ hc => ?_, hf.done⟩
        · exfalso
          rcases late_cases hl with hchecked | hshut
          · have htimely : timely s (.requestCancel j) = true := hok
            have hjob : s.jobs j = some job := hj
            simp [timely, hjob, hrun, hchecked, hcancelable] at htimely
          · rw [hf.shut hshut] at hcancelable
            cases hcancelable
        · rw [show run.status = .completed from hc] at hactive
          cases hactive
      · obtain ⟨run', hrun', hf⟩ := h j job hj
        exact ⟨run', (put_runs_of_ne hid _).trans hrun', hf⟩

theorem Inv.create (h : Inv s) {stillExport : Bool} {body outputDir imagePath : String}
    {started : Int} {write : Bool}
    (hs : step s (.create id stillExport body outputDir imagePath started write) = some s') :
    Inv s' := by
  rw [step] at hs
  split at hs
  · cases hs
  next hnone =>
  rw [Option.not_isSome_iff_eq_none] at hnone
  obtain ⟨⟨store, o⟩, hc, hs'⟩ := Option.map_eq_some_iff.mp hs
  obtain ⟨-, ⟨rfl, rfl⟩ | ⟨rfl, rfl⟩⟩ := createRun_cases hc
  · subst hs'
    intro j job hj
    have hne : j ≠ id := by
      rintro rfl
      rw [show s.jobs j = some job from hj] at hnone
      cases hnone
    obtain ⟨run, hrun, hf⟩ := h j job hj
    exact ⟨run, (Function.update_of_ne hne _ s.store.runs).trans hrun, hf⟩
  · subst hs'
    refine h.write rfl (fun _ hj => put_runs_of_ne hj _)
      (fun _ hj => Function.update_of_ne hj _ s.store.rows) (put_runs_self _) ?_
    refine ⟨?_, ?_, fun _ => rfl, ?_, ?_⟩
    · intro hl
      cases hl
    · intro hs
      cases hs
    · intro ht
      cases ht
    · intro r hr hc
      obtain rfl := Option.some.inj ((Function.update_self id _ s.store.rows).symm.trans hr)
      cases hc

/-- Every step in time keeps the invariant. -/
theorem Inv.step {a : Action} (h : Inv s) (hok : Timely s a) (hs : step s a = some s') :
    Inv s' := by
  cases a with
  | create => exact h.create hs
  | requestCancel => exact h.requestCancel hok hs
  | _ =>
    obtain ⟨job, hjob, hw⟩ := Option.bind_eq_some_iff.mp hs
    exact h.worker hjob hw

/-! ## A token that is set stays set -/

/-- What a step does to the store: no run appears or goes, no token is cleared. -/
structure Grows (t t' : Store) : Prop where
  absent : ∀ j, t.runs j = none → t'.runs j = none
  token : ∀ j run, t.runs j = some run → run.cancelToken = true →
    ∃ run', t'.runs j = some run' ∧ run'.cancelToken = true

theorem Grows.refl (t : Store) : Grows t t := ⟨fun _ h => h, fun _ run h ht => ⟨run, h, ht⟩⟩

theorem Grows.put {t t' : Store} {run' : RunRecord} (hrun : t.runs id = some run)
    (hruns : t'.runs = (t.put id run').runs)
    (htoken : run.cancelToken = true → run'.cancelToken = true) : Grows t t' where
  absent j hj := by
    have hne : j ≠ id := by
      rintro rfl
      rw [hrun] at hj
      cases hj
    rw [hruns, put_runs_of_ne hne]
    exact hj
  token j r hr ht := by
    rw [hruns]
    by_cases hj : j = id
    · subst hj
      obtain rfl := Option.some.inj (hrun.symm.trans hr)
      exact ⟨run', put_runs_self run', htoken ht⟩
    · exact ⟨r, (put_runs_of_ne hj run').trans hr, ht⟩

theorem grows_setCancelable (t : Store) (id : RunId) (b : Bool) :
    Grows t (setCancelable t id b).1 := by
  cases hrun : t.runs id with
  | none =>
    rw [setCancelable, hrun]
    exact .refl t
  | some run =>
    rw [setCancelable_found hrun]
    exact .put hrun (show _ = (t.put id { run with cancelable := b }).runs from rfl) fun ht => ht

theorem grows_setStatus (t : Store) (id : RunId) (status : RunStatus) (now : Int) (write : Bool) :
    Grows t (setStatus t id status now write).1 := by
  cases hrun : t.runs id with
  | none =>
    rw [setStatus, hrun]
    exact .refl t
  | some run =>
    exact .put hrun (setStatus_found hrun status now write) fun ht => ht

theorem grows_addArtifact (t : Store) (id : RunId) (artifact : Artifact) (write : Bool) :
    Grows t (addArtifact t id artifact write).1 := by
  cases hrun : t.runs id with
  | none =>
    rw [addArtifact, hrun]
    exact .refl t
  | some run =>
    exact .put hrun (addArtifact_found hrun artifact write).1 fun ht => ht

theorem grows_worker {a : Action} (hs : workerStep s id job a = some s') :
    Grows s.store s'.store := by
  unfold workerStep at hs
  split at hs <;> (repeat' split at hs)
  all_goals first
    | cases hs; done
    | obtain rfl := Option.some.inj hs
      first
        | exact .refl _
        | exact grows_setCancelable ..
        | exact grows_setStatus ..
        | exact grows_addArtifact ..

theorem grows_requestCancel (hs : step s (.requestCancel id) = some s') :
    Grows s.store s'.store := by
  rw [step] at hs
  cases hrun : s.store.runs id with
  | none =>
    rw [requestCancel, hrun] at hs
    exact Option.some.inj hs ▸ .refl _
  | some run =>
    obtain ⟨r, hr, ⟨-, hsame⟩ | ⟨-, -, -, hput⟩⟩ := requestCancel_found hrun
    · rw [hr] at hs
      obtain rfl := Option.some.inj hs
      rw [hsame]
      exact .refl _
    · rw [hr] at hs
      obtain rfl := Option.some.inj hs
      rw [hput]
      exact Grows.put hrun rfl fun _ => rfl

theorem jobs_worker {a : Action} (hs : workerStep s id job a = some s') :
    ∃ job', s'.jobs = Function.update s.jobs id (some job') := by
  unfold workerStep at hs
  split at hs <;> (repeat' split at hs)
  all_goals first
    | cases hs; done
    | obtain rfl := Option.some.inj hs
      exact ⟨_, rfl⟩

/-- Every run in memory has its worker. -/
def Manned (s : State) : Prop :=
  ∀ j, s.jobs j = none → s.store.runs j = none

/-- The token of a run in memory is set. -/
def Doomed (s : State) (j : RunId) : Prop :=
  ∃ run, s.store.runs j = some run ∧ run.cancelToken = true

theorem Manned.grows (h : Manned s) (hg : Grows s.store s'.store)
    (hjobs : ∀ j, s'.jobs j = none → s.jobs j = none) :
    Manned s' ∧ ∀ j, Doomed s j → Doomed s' j := by
  refine ⟨fun j hj => hg.absent j (h j (hjobs j hj)), ?_⟩
  rintro j ⟨run, hrun, ht⟩
  exact hg.token j run hrun ht

theorem Manned.create (h : Manned s) {stillExport : Bool} {body outputDir imagePath : String}
    {started : Int} {write : Bool}
    (hs : step s (.create id stillExport body outputDir imagePath started write) = some s') :
    Manned s' ∧ ∀ j, Doomed s j → Doomed s' j := by
  rw [step] at hs
  split at hs
  · cases hs
  next hnone =>
  rw [Option.not_isSome_iff_eq_none] at hnone
  have hdoomed : ∀ j, Doomed s j → j ≠ id := by
    rintro j ⟨run, hrun, -⟩ rfl
    rw [h j hnone] at hrun
    cases hrun
  obtain ⟨⟨store, o⟩, hc, hs'⟩ := Option.map_eq_some_iff.mp hs
  obtain ⟨-, ⟨rfl, rfl⟩ | ⟨rfl, rfl⟩⟩ := createRun_cases hc
  · subst hs'
    constructor
    · intro j hj
      by_cases hid : j = id
      · rw [hid]
        exact Function.update_self id none s.store.runs
      · exact (Function.update_of_ne hid none s.store.runs).trans (h j hj)
    · intro j hj
      have hid := hdoomed j hj
      obtain ⟨run, hrun, ht⟩ := hj
      refine ⟨run, ?_, ht⟩
      show Function.update s.store.runs id none j = some run
      rw [Function.update_of_ne hid]
      exact hrun
  · subst hs'
    constructor
    · intro j hj
      have hid : j ≠ id := by
        rintro rfl
        cases (Function.update_self j _ s.jobs).symm.trans hj
      exact (put_runs_of_ne hid _).trans (h j ((Function.update_of_ne hid _ s.jobs).symm.trans hj))
    · intro j hj
      have hid := hdoomed j hj
      obtain ⟨run, hrun, ht⟩ := hj
      exact ⟨run, (put_runs_of_ne hid _).trans hrun, ht⟩

/-- A thread stays with its run, and a doomed run stays doomed. -/
theorem Manned.step {a : Action} (h : Manned s) (hs : step s a = some s') :
    Manned s' ∧ ∀ j, Doomed s j → Doomed s' j := by
  cases a with
  | create => exact h.create hs
  | requestCancel id =>
    refine h.grows (grows_requestCancel hs) fun j hj => ?_
    rw [Runner.step] at hs
    split at hs
    · obtain rfl := Option.some.inj hs
      exact hj
    · obtain rfl := Option.some.inj hs
      exact hj
  | _ =>
    obtain ⟨job, -, hw⟩ := Option.bind_eq_some_iff.mp hs
    obtain ⟨job', hjobs⟩ := jobs_worker hw
    refine h.grows (grows_worker hw) fun j hj => ?_
    rw [hjobs, Function.update_apply] at hj
    split at hj
    · cases hj
    · exact hj

end

theorem Inv.doomed {s : State} (h : Inv s) (hm : Manned s) {j : RunId} (hd : Doomed s j) :
    (∀ run, s.store.runs j = some run → run.status ≠ .completed) ∧
      ∀ row, s.store.rows j = some row → row.status ≠ .completed := by
  obtain ⟨run, hrun, htoken⟩ := hd
  cases hjob : s.jobs j with
  | none =>
    rw [hm j hjob] at hrun
    cases hrun
  | some job =>
    obtain ⟨run', hrun', hf⟩ := h j job hjob
    obtain rfl := Option.some.inj (hrun.symm.trans hrun')
    refine ⟨fun r hr => ?_, fun row hrow hc => hf.token htoken (hf.done row hrow hc).1⟩
    rw [← Option.some.inj (hrun.symm.trans hr)]
    exact hf.token htoken

/-- The invariant holds in every state that is reached in time. -/
theorem inv_of_reach {s : State} (h : Reach NoRuns step Timely s) : Inv s ∧ Manned s := by
  refine h.invariant (I := fun t => Inv t ∧ Manned t) (fun t ht => ⟨?_, ?_⟩) ?_
  · intro j job hj
    rw [ht.2 j] at hj
    cases hj
  · exact fun j _ => ht.1 j
  · exact fun t a t' hi hok hs => ⟨hi.1.step hok hs, (hi.2.step hs).1⟩

/-- A run whose cancellation was accepted is never completed, and a request that is turned down
leaves every run as it is. -/
theorem accepted_cancel_prevents_completion {s s' s'' : State} {id : RunId}
    {result : Store × CancelRequestResult} (h : Reach NoRuns step Timely s)
    (hresult : requestCancel s.store id = some result) (hok : Timely s (.requestCancel id))
    (hs : step s (.requestCancel id) = some s') (hl : Later step Timely s' s'') :
    (result.2.accepted = true →
      (∀ run, s''.store.runs id = some run → run.status ≠ .completed) ∧
        ∀ row, s''.store.rows id = some row → row.status ≠ .completed) ∧
      (result.2.accepted = false → s' = s) := by
  obtain ⟨hinv, hmanned⟩ := inv_of_reach h
  have hstep : s' = { s with store := result.1 } := by
    rw [step, hresult] at hs
    exact (Option.some.inj hs).symm
  cases hrun : s.store.runs id with
  | none =>
    rw [requestCancel, hrun] at hresult
    cases hresult
  | some run =>
    obtain ⟨r, hr, hcases⟩ := requestCancel_found hrun
    obtain rfl := Option.some.inj (hr.symm.trans hresult)
    obtain ⟨hno, hsame⟩ | ⟨hyes, -, -, hput⟩ := hcases
    · refine ⟨fun hyes => ?_, fun _ => ?_⟩
      · rw [hno] at hyes
        cases hyes
      · rw [hstep, hsame]
    · refine ⟨fun _ => ?_, fun hno => ?_⟩
      · have hdoomed : Doomed s' id := by
          rw [hstep, hput]
          exact ⟨_, put_runs_self _, rfl⟩
        have hlast : (Inv s'' ∧ Manned s'') ∧ Doomed s'' id := by
          refine hl.invariant (I := fun t => (Inv t ∧ Manned t) ∧ Doomed t id) ?_
            ⟨⟨hinv.step hok hs, (hmanned.step hs).1⟩, hdoomed⟩
          rintro t a t' ⟨⟨hi, hm⟩, hd⟩ hok hs
          exact ⟨⟨hi.step hok hs, (hm.step hs).1⟩, (hm.step hs).2 id hd⟩
        exact hlast.1.1.doomed hlast.1.2 hlast.2
      · rw [hyes] at hno
        cases hno

def noRuns : State := ⟨⟨fun _ => none, fun _ => none, [], []⟩, fun _ => none⟩

theorem noRuns_noRuns : NoRuns noRuns := ⟨fun _ => rfl, fun _ => rfl⟩

/-- A still export up to the end of its render. -/
def exported : List Action :=
  [.create "r" true "" "runs/maps/r" "map.png" 0 true, .openRun "r", .precheck "r" false,
    .acquire "r" true, .start "r" 1 true, .render "r" false .returned]

/-- The request is taken before the last test of the token; the run is cancelled. -/
def cancelledExport : List Action := [.check "r" false, .close "r", .settle "r" 2 true]

theorem exported_runs : (exec (guarded step timely) noRuns exported).isSome = true := by
  decide +kernel

def exportedState : State := (exec (guarded step timely) noRuns exported).get exported_runs

theorem exportedState_reached : Reach NoRuns step Timely exportedState :=
  reach_of_guarded_exec noRuns_noRuns (Option.some_get exported_runs).symm

theorem cancelledExport_runs :
    ((requestCancel exportedState.store "r").any fun r => r.2.accepted) = true ∧
      ((step exportedState (.requestCancel "r")).bind fun s =>
        exec (guarded step timely) s cancelledExport).isSome = true := by
  decide +kernel

/-- An export that is cancelled before its last test. -/
theorem accepted_cancel_prevents_completion_export : ∃ (s : State) (r : _), r.2.accepted = true ∧
    requestCancel exportedState.store "r" = some r ∧
      ∀ run, s.store.runs "r" = some run → run.status ≠ .completed := by
  obtain ⟨haccepted, hruns⟩ := cancelledExport_runs
  have htimely : timely exportedState (.requestCancel "r") = true := by decide +kernel
  obtain ⟨r, hr, haccepted⟩ := (Option.any_eq_true _ _).mp haccepted
  obtain ⟨s', hs'⟩ := Option.isSome_iff_exists.mp hruns
  obtain ⟨s, hs, hexec⟩ := Option.bind_eq_some_iff.mp hs'
  exact ⟨s', r, haccepted, hr, ((accepted_cancel_prevents_completion exportedState_reached hr
    htimely hs (later_of_guarded_exec hexec)).1 haccepted).1⟩

/-- The request is taken between the last test of the token and the clearing of the flag. -/
def lateRequest : List Action := exported ++ [.check "r" false]

def completion : List Action :=
  [.protect "r", .encode "r" true, .addArtifact "r" true, .close "r", .settle "r" 3 true]

/-- It is accepted, and the run is completed. -/
theorem accepted_then_completed : ∃ s r s' s'', Reach NoRuns step Free s ∧
    requestCancel s.store "r" = some r ∧ r.2.accepted = true ∧
      step s (.requestCancel "r") = some s' ∧ Later step Free s' s'' ∧
        ∃ run, s''.store.runs "r" = some run ∧ run.status = .completed := by
  have hrun : (exec step noRuns lateRequest).any (fun s =>
      (requestCancel s.store "r").any fun r => r.2.accepted &&
        (step s (.requestCancel "r")).any fun s' => (exec step s' completion).any fun s'' =>
          (s''.store.runs "r").any fun run => run.status = .completed) = true := by
    decide +kernel
  simp only [Option.any_eq_true, Bool.and_eq_true, decide_eq_true_eq] at hrun
  obtain ⟨s, hs, r, hr, haccepted, s', hs', s'', hs'', run, hfound, hcompleted⟩ := hrun
  exact ⟨s, r, s', s'', reach_of_exec noRuns_noRuns hs, hr, haccepted, hs', later_of_exec hs'',
    run, hfound, hcompleted⟩

end FractalStudio.Runner
