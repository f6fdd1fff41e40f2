import FractalStudio.Lib.Transition
import FractalStudio.Runner.JobRunner

/-!
# Memory and database of a runner

Sequences of `createRun`, `setStatus` and `addArtifact` in which any database write may throw.
Only `createRun` takes its change of memory back; the other two leave it, and `setStatus` does
not look at the status it replaces.
-/
namespace FractalStudio.Runner

open Transition

inductive Call where
  | createRun (id : RunId) (module paramsJson outputDir : String) (started : Int) (write : Bool)
  | setStatus (id : RunId) (status : RunStatus) (now : Int) (write : Bool)
  | addArtifact (id : RunId) (artifact : Artifact) (write : Bool)

def call (s : Store) : Call → Option (Store × Outcome)
  | .createRun id module paramsJson outputDir started write =>
    createRun s id module paramsJson outputDir started write
  | .setStatus id status now write => some (setStatus s id status now write)
  | .addArtifact id artifact write => some (addArtifact s id artifact write)

def callStep (s : Store) (a : Call) : Option Store := (call s a).map Prod.fst

/-- A fresh runner; the runs of earlier processes keep their directories. -/
def Fresh (s : Store) : Prop :=
  (∀ id, s.runs id = none) ∧ ∀ a ∈ s.artifacts, a.runId ∈ s.directories

def Store.artifactsOf (s : Store) (id : RunId) : List (String × String) :=
  (s.artifacts.filter fun a => a.runId = id).map fun a => (a.kind, a.path)

def RunRecord.artifactList (run : RunRecord) : List (String × String) :=
  run.artifacts.map fun a => (a.kind, a.path)

def Agree (s : Store) : Prop :=
  ∀ id run, s.runs id = some run →
    (∃ row, s.rows id = some row ∧ row.status = run.status) ∧
      s.artifactsOf id = run.artifactList

def Settled (s s' : Store) : Prop :=
  ∀ id run, s.runs id = some run → run.status.terminal = true →
    ∃ run', s'.runs id = some run' ∧ run'.status = run.status

/-- What a call ought to do: it keeps the agreement, has no effect when it throws, and leaves
terminal statuses. -/
def Faithful (s : Store) (a : Call) : Prop :=
  ∀ s' o, call s a = some (s', o) → Agree s' ∧ (o = .threw → s' = s) ∧ Settled s s'

/-- The write of a `setStatus` or `addArtifact` succeeds, and `setStatus` does not replace a
terminal status by another. -/
def sound (s : Store) : Call → Bool
  | .createRun .. => true
  | .setStatus id status _ write => (s.runs id).all fun run =>
      run.status = status || write && !run.status.terminal
  | .addArtifact id _ write => (s.runs id).isNone || write

def Sound (s : Store) (a : Call) : Prop := sound s a = true

/-- What the calls on the store keep. -/
structure Kept (s : Store) : Prop where
  agree : Agree s
  known : ∀ id run, s.runs id = some run → id ∈ s.directories
  filed : ∀ a ∈ s.artifacts, a.runId ∈ s.directories

section
variable {s s' : Store} {id : RunId}

theorem sound_setStatus {run : RunRecord} (hrun : s.runs id = some run) (status : RunStatus)
    (now : Int) (write : Bool) : Sound s (.setStatus id status now write) ↔
      run.status = status ∨ write = true ∧ run.status.terminal = false := by
  simp [Sound, sound, hrun]

theorem sound_addArtifact {run : RunRecord} (hrun : s.runs id = some run) (artifact : Artifact)
    (write : Bool) : Sound s (.addArtifact id artifact write) ↔ write = true := by
  simp [Sound, sound, hrun]

theorem sound_unknown (hrun : s.runs id = none) (status : RunStatus) (now : Int)
    (artifact : Artifact) (write : Bool) : Sound s (.setStatus id status now write) ∧
      Sound s (.addArtifact id artifact write) := by
  simp [Sound, sound, hrun]

theorem Settled.refl (s : Store) : Settled s s := fun _ run hrun _ => ⟨run, hrun, rfl⟩

theorem artifactsOf_of_not_mem (h : ∀ a ∈ s.artifacts, a.runId ≠ id) : s.artifactsOf id = [] := by
  rw [Store.artifactsOf, List.map_eq_nil_iff, List.filter_eq_nil_iff]
  intro a ha
  simpa using h a ha

theorem Kept.put {run run' : RunRecord} (h : Kept s) (hrun : s.runs id = some run)
    (hruns : s'.runs = (s.put id run').runs) (hdir : s'.directories = s.directories)
    (hrows : ∀ j ≠ id, s'.rows j = s.rows j ∧ s'.artifactsOf j = s.artifactsOf j)
    (hfiled : ∀ a ∈ s'.artifacts, a.runId ∈ s.directories)
    (hnew : (∃ row, s'.rows id = some row ∧ row.status = run'.status) ∧
      s'.artifactsOf id = run'.artifactList) : Kept s' where
  agree j r hr := by
    rw [hruns] at hr
    by_cases hj : j = id
    · subst hj
      rw [put_runs_self] at hr
      rw [← Option.some.inj hr]
      exact hnew
    · rw [put_runs_of_ne hj] at hr
      rw [(hrows j hj).1, (hrows j hj).2]
      exact h.agree j r hr
  known j r hr := by
    rw [hruns] at hr
    rw [hdir]
    by_cases hj : j = id
    · rw [hj]
      exact h.known id run hrun
    · rw [put_runs_of_ne hj] at hr
      exact h.known j r hr
  filed := by
    rw [hdir]
    exact hfiled

theorem Settled.put {run run' : RunRecord} (hrun : s.runs id = some run)
    (hruns : s'.runs = (s.put id run').runs)
    (hterm : run.status.terminal = true → run'.status = run.status) : Settled s s' := by
  intro j r hr ht
  rw [hruns]
  by_cases hj : j = id
  · subst hj
    obtain rfl := Option.some.inj (hrun.symm.trans hr)
    exact ⟨run', put_runs_self run', hterm ht⟩
  · exact ⟨r, (put_runs_of_ne hj run').trans hr, rfl⟩

theorem createRun_faithful (h : Kept s) {module paramsJson outputDir : String} {started : Int}
    {write : Bool} {o : Outcome}
    (hc : createRun s id module paramsJson outputDir started write = some (s', o)) :
    Kept s' ∧ (o = .threw → s' = s) ∧ Settled s s' := by
  obtain ⟨hnew, ⟨rfl, rfl⟩ | ⟨rfl, rfl⟩⟩ := createRun_cases hc
  all_goals
    have hnone : s.runs id = none := by
      cases hrun : s.runs id with
      | none => rfl
      | some run => exact absurd (h.known id run hrun) hnew
  · have hsame : Function.update s.runs id none = s.runs := by
      rw [← hnone]
      exact Function.update_eq_self id s.runs
    rw [hsame]
    exact ⟨h, fun _ => rfl, .refl s⟩
  · refine ⟨⟨?_, ?_, fun a ha => List.mem_cons_of_mem _ (h.filed a ha)⟩, ?_, ?_⟩
    · intro j run hrun
      by_cases hj : j = id
      · subst hj
        rw [put_runs_self] at hrun
        obtain rfl := Option.some.inj hrun
        refine ⟨⟨_, Function.update_self j _ s.rows, rfl⟩, ?_⟩
        refine artifactsOf_of_not_mem fun a ha hid => hnew ?_
        rw [← hid]
        exact h.filed a ha
      · rw [put_runs_of_ne hj] at hrun
        obtain ⟨⟨row, hrow, hstatus⟩, hart⟩ := h.agree j run hrun
        exact ⟨⟨row, (Function.update_of_ne hj _ s.rows).trans hrow, hstatus⟩, hart⟩
    · intro j run hrun
      by_cases hj : j = id
      · rw [hj]
        exact List.mem_cons_self
      · rw [put_runs_of_ne hj] at hrun
        exact List.mem_cons_of_mem _ (h.known j run hrun)
    · intro ho
      cases ho
    · intro j run hrun _
      have hj : j ≠ id := by
        rintro rfl
        rw [hnone] at hrun
        cases hrun
      exact ⟨run, (put_runs_of_ne hj _).trans hrun, rfl⟩

theorem setStatus_faithful (h : Kept s) {run : RunRecord} (hrun : s.runs id = some run)
    {status : RunStatus} {now : Int} {write : Bool} {o : Outcome}
    (hsound : run.status = status ∨ write = true ∧ run.status.terminal = false)
    (hc : setStatus s id status now write = (s', o)) :
    Kept s' ∧ (o = .threw → s' = s) ∧ Settled s s' := by
  obtain ⟨hrow, hart⟩ := h.agree id run hrun
  have hterm : run.status.terminal = true → status = run.status := by
    intro ht
    rcases hsound with heq | ⟨-, hopen⟩
    · exact heq.symm
    · rw [hopen] at ht
      cases ht
  cases write with
  | false =>
    rw [setStatus_threw hrun] at hc
    have heq : run.status = status := by
      rcases hsound with heq | ⟨hfalse, -⟩
      · exact heq
      · cases hfalse
    obtain ⟨hst, -⟩ := Prod.mk.inj hc
    have hsame : { run with status := status } = run := by rw [← heq]
    rw [hsame, put_same hrun] at hst
    subst hst
    exact ⟨h, fun _ => rfl, .refl s⟩
  | true =>
    rw [setStatus_returned hrun] at hc
    obtain ⟨rfl, rfl⟩ := Prod.mk.inj hc
    have hsettled : Settled s _ :=
      .put hrun (show _ = (s.put id { run with status := status }).runs from rfl) hterm
    refine ⟨?_, (fun ho => by cases ho), hsettled⟩
    refine h.put hrun rfl rfl (fun j hj => ⟨Function.update_of_ne hj _ s.rows, rfl⟩) h.filed ?_
    exact ⟨⟨_, Function.update_self id _ s.rows, rfl⟩, hart⟩

theorem addArtifact_faithful (h : Kept s) {run : RunRecord} (hrun : s.runs id = some run)
    {artifact : Artifact} {o : Outcome} (hc : addArtifact s id artifact true = (s', o)) :
    Kept s' ∧ (o = .threw → s' = s) ∧ Settled s s' := by
  obtain ⟨hrow, hart⟩ := h.agree id run hrun
  rw [addArtifact, hrun] at hc
  obtain ⟨rfl, rfl⟩ := Prod.mk.inj hc
  refine ⟨?_, (fun ho => by cases ho), Settled.put hrun rfl fun _ => rfl⟩
  refine h.put hrun rfl rfl (fun j hj => ⟨rfl, ?_⟩) ?_ ⟨hrow, ?_⟩
  · have hne : ¬ id = j := fun heq => hj heq.symm
    simp [Store.artifactsOf, List.filter_append, hne]
  · intro a ha
    rcases List.mem_append.mp ha with ha | ha
    · exact h.filed a ha
    · rw [List.mem_singleton.mp ha]
      exact h.known id run hrun
  · rw [Store.artifactsOf, RunRecord.artifactList] at hart
    simp [Store.artifactsOf, List.filter_append, RunRecord.artifactList, hart]

theorem Kept.call {a : Call} {o : Outcome} (h : Kept s) (hs : Sound s a)
    (hc : call s a = some (s', o)) : Kept s' ∧ (o = .threw → s' = s) ∧ Settled s s' := by
  cases a with
  | createRun id module paramsJson outputDir started write => exact createRun_faithful h hc
  | setStatus id status now write =>
    cases hrun : s.runs id with
    | some run =>
      exact setStatus_faithful h hrun ((sound_setStatus hrun ..).mp hs) (Option.some.inj hc)
    | none =>
      have hthrew : setStatus s id status now write = (s, .threw) := by rw [setStatus, hrun]
      obtain ⟨rfl, rfl⟩ := Prod.mk.inj (hthrew.symm.trans (Option.some.inj hc))
      exact ⟨h, fun _ => rfl, .refl s⟩
  | addArtifact id artifact write =>
    cases hrun : s.runs id with
    | some run =>
      obtain rfl := (sound_addArtifact hrun ..).mp hs
      exact addArtifact_faithful h hrun (Option.some.inj hc)
    | none =>
      have hthrew : addArtifact s id artifact write = (s, .threw) := by rw [addArtifact, hrun]
      obtain ⟨rfl, rfl⟩ := Prod.mk.inj (hthrew.symm.trans (Option.some.inj hc))
      exact ⟨h, fun _ => rfl, .refl s⟩

/-- The condition is exact: any other call breaks the agreement, leaves an effect although it
throws, or replaces a terminal status. -/
theorem faithful_iff (h : Kept s) (a : Call) : Faithful s a ↔ Sound s a := by
  constructor
  · intro hfaithful
    cases a with
    | createRun => rfl
    | setStatus id status now write =>
      cases hrun : s.runs id with
      | none => exact (sound_unknown hrun status now ⟨"", "", ""⟩ write).1
      | some run =>
      rw [sound_setStatus hrun]
      cases write with
      | false =>
        left
        obtain ⟨-, hthrew, -⟩ := hfaithful _ _ (congrArg some (setStatus_threw hrun status now))
        have hput := congrFun (congrArg Store.runs (hthrew rfl)) id
        rw [put_runs_self, hrun] at hput
        have hsame := Option.some.inj hput
        rw [← hsame]
      | true =>
        cases hterm : run.status.terminal with
        | false => exact .inr ⟨rfl, rfl⟩
        | true =>
          obtain ⟨-, -, hsettled⟩ :=
            hfaithful _ _ (congrArg some (setStatus_returned hrun status now))
          obtain ⟨run', hrun', hstatus⟩ := hsettled id run hrun hterm
          rw [put_runs_self] at hrun'
          left
          rw [← hstatus, ← Option.some.inj hrun']
    | addArtifact id artifact write =>
      cases hrun : s.runs id with
      | none => exact (sound_unknown hrun .failed 0 artifact write).2
      | some run =>
      rw [sound_addArtifact hrun]
      cases write with
      | true => rfl
      | false =>
        have hcall : addArtifact s id artifact false =
            (s.put id { run with artifacts := run.artifacts ++ [artifact] }, .threw) := by
          rw [addArtifact, hrun]
          rfl
        obtain ⟨-, hthrew, -⟩ := hfaithful _ _ (congrArg some hcall)
        have hput := congrFun (congrArg Store.runs (hthrew rfl)) id
        rw [put_runs_self, hrun] at hput
        have hlength := congrArg (fun r => r.artifacts.length) (Option.some.inj hput)
        simp at hlength
  · intro hs s' o hc
    obtain ⟨hkept, hthrew, hsettled⟩ := h.call hs hc
    exact ⟨hkept.agree, hthrew, hsettled⟩

theorem Kept.fresh (h : Fresh s) : Kept s where
  agree id run hrun := by rw [h.1 id] at hrun; cases hrun
  known id run hrun := by rw [h.1 id] at hrun; cases hrun
  filed := h.2

theorem Kept.callStep {a : Call} (h : Kept s) (hs : Sound s a) (hc : callStep s a = some s') :
    Kept s' ∧ Settled s s' := by
  obtain ⟨⟨t, o⟩, hcall, rfl⟩ := Option.map_eq_some_iff.mp hc
  obtain ⟨hkept, -, hsettled⟩ := h.call hs hcall
  exact ⟨hkept, hsettled⟩

theorem Settled.trans {t : Store} (h : Settled s s') (h' : Settled s' t) : Settled s t := by
  intro id run hrun hterm
  obtain ⟨run', hrun', hstatus⟩ := h id run hrun hterm
  rw [← hstatus] at hterm
  obtain ⟨run'', hrun'', hstatus'⟩ := h' id run' hrun' hterm
  exact ⟨run'', hrun'', hstatus'.trans hstatus⟩

end

/-- While the calls meet the condition, memory agrees with the database, a call that throws has no
effect, and a terminal status stays. -/
theorem memory_matches_database {s : Store} (h : Reach Fresh callStep Sound s) :
    Agree s ∧ (∀ a, Sound s a → Faithful s a) ∧
      ∀ s', Later callStep Sound s s' → Settled s s' := by
  have hkept : Kept s := h.invariant (fun _ => Kept.fresh) fun _ _ _ hk hs hc =>
    (hk.callStep hs hc).1
  refine ⟨hkept.agree, fun a => (faithful_iff hkept a).mpr, fun s' hl => ?_⟩
  have hboth : Kept s' ∧ Settled s s' := by
    refine hl.invariant (I := fun t => Kept t ∧ Settled s t) ?_ ⟨hkept, .refl s⟩
    intro t a t' ht hs hc
    obtain ⟨hk, hsettled⟩ := ht.1.callStep hs hc
    exact ⟨hk, ht.2.trans hsettled⟩
  exact hboth.2

def emptyStore : Store := ⟨fun _ => none, fun _ => none, [], []⟩

theorem fresh_emptyStore : Fresh emptyStore := ⟨fun _ => rfl, fun a ha => by cases ha⟩

def renderedRun : List Call :=
  [.createRun "r" "map" "" "runs/maps/r" 0 true, .setStatus "r" .running 1 true,
    .addArtifact "r" ⟨"map", "map.png", "image"⟩ true, .setStatus "r" .completed 2 true]

theorem renderedRun_runs :
    (exec (guarded callStep sound) emptyStore renderedRun).isSome = true := by
  decide +kernel

/-- A run that renders and exports, with all its calls checked. -/
theorem memory_matches_database_renderedRun :
    Agree ((exec (guarded callStep sound) emptyStore renderedRun).get renderedRun_runs) :=
  (memory_matches_database (reach_of_guarded_exec fresh_emptyStore
    (Option.some_get renderedRun_runs).symm)).1

/-- `mapRenderRoute` when the write of `completed` throws: its handler sets `failed`. -/
def failedCompletion : List Call :=
  [.createRun "r" "map" "" "runs/maps/r" 0 true, .setStatus "r" .running 1 true,
    .setStatus "r" .completed 2 false]

/-- The throwing `setStatus` leaves memory at `completed` beside a row at `running`, and the
handler's `setStatus` replaces the terminal status. -/
theorem failed_write_disagrees : ∃ s s', Reach Fresh callStep Free s ∧
    callStep s (.setStatus "r" .failed 3 true) = some s' ∧ ¬ Agree s ∧ ¬ Settled s s' := by
  have hrun : (exec callStep emptyStore failedCompletion).any (fun s =>
      (s.runs "r").any (fun run => run.status = .completed) &&
      (s.rows "r").any (fun row => row.status = .running) &&
      (callStep s (.setStatus "r" .failed 3 true)).any fun s' =>
        (s'.runs "r").any fun run => run.status = .failed) = true := by
    decide +kernel
  obtain ⟨s, hs, hrun⟩ := (Option.any_eq_true _ _).mp hrun
  simp only [Bool.and_eq_true, Option.any_eq_true, decide_eq_true_eq] at hrun
  obtain ⟨⟨⟨run, hrun, hcompleted⟩, row, hrow, hrunning⟩, s', hs', run', hrun', hfailed⟩ := hrun
  refine ⟨s, s', reach_of_exec fresh_emptyStore hs, hs', fun hagree => ?_, fun hsettled => ?_⟩
  · obtain ⟨⟨row', hrow', hstatus⟩, -⟩ := hagree "r" run hrun
    obtain rfl := Option.some.inj (hrow.symm.trans hrow')
    rw [hrunning, hcompleted] at hstatus
    cases hstatus
  · obtain ⟨run'', hrun'', hstatus⟩ := hsettled "r" run hrun (by rw [hcompleted]; rfl)
    obtain rfl := Option.some.inj (hrun'.symm.trans hrun'')
    rw [hfailed, hcompleted] at hstatus
    cases hstatus

end FractalStudio.Runner
