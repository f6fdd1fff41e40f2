import Mathlib.Logic.Function.Basic

/-!
# The job runner

`core/job_runner.cpp` over the tables `runs` and `artifacts` of `core/db.cpp`. The maps that the
runner keeps under one mutex are one record per run. Every database write may throw; such a write
leaves the database as it was.
-/
namespace FractalStudio.Runner

abbrev RunId := String

inductive RunStatus where
  | queued
  | running
  | completed
  | failed
  | cancelled
  deriving DecidableEq

def RunStatus.active : RunStatus → Bool
  | .queued => true
  | .running => true
  | _ => false

/-- The statuses that `setStatus` gives a finish time. -/
def RunStatus.terminal : RunStatus → Bool
  | .completed => true
  | .failed => true
  | .cancelled => true
  | _ => false

structure Artifact where
  module : String
  path : String
  kind : String
  deriving DecidableEq

/-- `runs_[id]` with `runModules_`, `runParams_`, `runStarted_`, `runCancelRequested_`,
`runCancelTokens_` and `runCancelable_`. -/
structure RunRecord where
  status : RunStatus
  outputDir : String
  artifacts : List Artifact
  module : String
  paramsJson : String
  started : Int
  cancelRequested : Bool
  cancelToken : Bool
  cancelable : Bool
  deriving DecidableEq

/-- A row of `runs`, less its id. -/
structure RunRow where
  module : String
  status : RunStatus
  paramsJson : String
  startedAt : Int
  finishedAt : Int
  outputDir : String
  deriving DecidableEq

/-- The row that `setStatus` writes. -/
def RunRecord.row (run : RunRecord) (status : RunStatus) (now : Int) : RunRow :=
  ⟨run.module, status, run.paramsJson, run.started, if status.terminal then now else 0,
    run.outputDir⟩

structure ArtifactRow where
  runId : RunId
  kind : String
  path : String
  metaJson : String
  deriving DecidableEq

structure Store where
  runs : RunId → Option RunRecord
  rows : RunId → Option RunRow
  artifacts : List ArtifactRow
  /-- The run ids under `runs/`, whatever their category. -/
  directories : List RunId

/-- The runner's maps with a new record of a run. -/
def Store.put (s : Store) (id : RunId) (run : RunRecord) : Store :=
  { s with runs := Function.update s.runs id (some run) }

inductive Outcome where
  | returned
  | threw
  deriving DecidableEq

/-- `Db::upsertRun`, `none` when it throws. -/
def upsertRun (s : Store) (id : RunId) (row : RunRow) (write : Bool) : Option Store :=
  if write then some { s with rows := Function.update s.rows id (some row) } else none

/-- The record of a run that has just been created. -/
def queuedRun (module paramsJson outputDir : String) (started : Int) : RunRecord :=
  ⟨.queued, outputDir, [], module, paramsJson, started, false, false, false⟩

def createRun (s : Store) (id : RunId) (module paramsJson outputDir : String) (started : Int)
    (write : Bool) : Option (Store × Outcome) :=
  if id ∈ s.directories then none
  else
    let run := queuedRun module paramsJson outputDir started
    let made : Store := { s.put id run with directories := id :: s.directories }
    match upsertRun made id ⟨module, .queued, paramsJson, started, 0, outputDir⟩ write with
    | some s' => some (s', .returned)
    -- The catch blocks: the record is erased and the directory removed.
    | none => some ({ s with runs := Function.update s.runs id none }, .threw)

def setStatus (s : Store) (id : RunId) (status : RunStatus) (now : Int) (write : Bool) :
    Store × Outcome :=
  match s.runs id with
  | none => (s, .threw)
  | some run =>
    let s' := s.put id { run with status := status }
    match upsertRun s' id (run.row status now) write with
    | some s'' => (s'', .returned)
    | none => (s', .threw)

def addArtifact (s : Store) (id : RunId) (artifact : Artifact) (write : Bool) : Store × Outcome :=
  match s.runs id with
  | none => (s, .threw)
  | some run =>
    let s' := s.put id { run with artifacts := run.artifacts ++ [artifact] }
    if write then
      ({ s' with artifacts := s.artifacts ++ [⟨id, artifact.kind, artifact.path, ""⟩] }, .returned)
    else (s', .threw)

structure CancelRequestResult where
  runStatus : RunStatus
  cancelable : Bool
  cancelRequested : Bool
  accepted : Bool
  deriving DecidableEq

def requestCancel (s : Store) (id : RunId) : Option (Store × CancelRequestResult) :=
  match s.runs id with
  | none => none
  | some run =>
    if ¬ run.status.active ∨ ¬ run.cancelable then
      some (s, ⟨run.status, run.cancelable, false, false⟩)
    else
      some (s.put id { run with cancelRequested := true, cancelToken := true },
        ⟨run.status, run.cancelable, true, true⟩)

def setCancelable (s : Store) (id : RunId) (cancelable : Bool) : Store × Outcome :=
  match s.runs id with
  | none => (s, .threw)
  | some run => (s.put id { run with cancelable := cancelable }, .returned)

section
variable {s : Store} {id j : RunId}

@[simp] theorem put_runs_self (run : RunRecord) : (s.put id run).runs id = some run := by
  simp only [Store.put, Function.update_self]

theorem put_runs_of_ne (h : j ≠ id) (run : RunRecord) : (s.put id run).runs j = s.runs j := by
  simp only [Store.put, Function.update_of_ne h]

theorem put_same {run : RunRecord} (h : s.runs id = some run) : s.put id run = s := by
  have hsame : Function.update s.runs id (some run) = s.runs := by
    rw [← h]
    exact Function.update_eq_self id s.runs
  rw [Store.put, hsame]

theorem createRun_cases {module paramsJson outputDir : String} {started : Int} {write : Bool}
    {s' : Store} {o : Outcome}
    (h : createRun s id module paramsJson outputDir started write = some (s', o)) :
    id ∉ s.directories ∧
      (o = .threw ∧ s' = { s with runs := Function.update s.runs id none } ∨
        o = .returned ∧ s' = { s.put id (queuedRun module paramsJson outputDir started) with
          rows := Function.update s.rows id
            (some ⟨module, .queued, paramsJson, started, 0, outputDir⟩)
          directories := id :: s.directories }) := by
  unfold createRun at h
  split at h
  · cases h
  next hnew =>
  refine ⟨hnew, ?_⟩
  cases write with
  | false =>
    obtain ⟨rfl, rfl⟩ := Prod.mk.inj (Option.some.inj h)
    exact .inl ⟨rfl, rfl⟩
  | true =>
    obtain ⟨rfl, rfl⟩ := Prod.mk.inj (Option.some.inj h)
    exact .inr ⟨rfl, rfl⟩

theorem setStatus_found {run : RunRecord} (h : s.runs id = some run) (status : RunStatus)
    (now : Int) (write : Bool) :
    (setStatus s id status now write).1.runs = (s.put id { run with status := status }).runs := by
  unfold setStatus upsertRun
  rw [h]
  cases write <;> rfl

theorem setStatus_threw {run : RunRecord} (h : s.runs id = some run) (status : RunStatus)
    (now : Int) :
    setStatus s id status now false = (s.put id { run with status := status }, .threw) := by
  unfold setStatus upsertRun
  rw [h]
  rfl

theorem setStatus_returned {run : RunRecord} (h : s.runs id = some run) (status : RunStatus)
    (now : Int) :
    setStatus s id status now true = ({ s.put id { run with status := status } with
      rows := Function.update s.rows id (some (run.row status now)) }, .returned) := by
  unfold setStatus upsertRun
  rw [h]
  rfl

theorem addArtifact_found {run : RunRecord} (h : s.runs id = some run) (artifact : Artifact)
    (write : Bool) : (addArtifact s id artifact write).1.runs =
        (s.put id { run with artifacts := run.artifacts ++ [artifact] }).runs ∧
      (addArtifact s id artifact write).1.rows = s.rows := by
  unfold addArtifact
  rw [h]
  cases write <;> exact ⟨rfl, rfl⟩

theorem requestCancel_found {run : RunRecord} (h : s.runs id = some run) :
    ∃ r, requestCancel s id = some r ∧
      (r.2.accepted = false ∧ r.1 = s ∨
        r.2.accepted = true ∧ run.status.active = true ∧ run.cancelable = true ∧
          r.1 = s.put id { run with cancelRequested := true, cancelToken := true }) := by
  unfold requestCancel
  simp only [h]
  split
  · exact ⟨_, rfl, .inl ⟨rfl, rfl⟩⟩
  · next hopen =>
    rw [not_or, not_not, not_not] at hopen
    exact ⟨_, rfl, .inr ⟨rfl, hopen.1, hopen.2, rfl⟩⟩

theorem setCancelable_found {run : RunRecord} (h : s.runs id = some run) (cancelable : Bool) :
    setCancelable s id cancelable = (s.put id { run with cancelable := cancelable }, .returned) := by
  unfold setCancelable
  rw [h]

end

end FractalStudio.Runner
