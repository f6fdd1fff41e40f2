import FractalStudio.Gateway.Effects

/-!
# Terminal runs

A run is over when its state is terminal, and `terminal_at` records when. Three of
the writers set both columns together. The answers to a create and to a status call
store whatever state the node reports, and the create leaves `terminal_at` alone;
the condition below is what these two have to find in the row for the law to hold.
-/
namespace FractalStudio.Gateway

open Transition

/-- A create answer agrees with the row on being over, and a status answer does not
bring a terminal row back. -/
def answersAgree (s : State) : Action → Bool
  | .advance c answer _ =>
    ((createStores s c answer).all fun (row, state) => row.state.isActive == state.isActive) &&
      (pollStores s c answer).all fun (row, state) => row.state.isActive || state.isTerminal
  | _ => true

/-- The stamp is set exactly on a terminal row. -/
def ComputeRun.Stamped (run : ComputeRun) : Prop := run.terminalAt.isSome = run.state.isTerminal

def Stamped (s : State) : Prop := ∀ run row, s.db.runs.find? run = some row → row.Stamped

variable {s : State} {row : ComputeRun} {c : CallId} {answer : UpstreamResult} {fresh : Uuid}

theorem createStores_agrees {state : RunState}
    (hok : answersAgree s (.advance c answer fresh) = true)
    (hst : createStores s c answer = some (row, state)) :
    row.state.isActive = state.isActive := by
  rw [answersAgree, Bool.and_eq_true] at hok
  simpa [hst] using hok.1

theorem pollStores_agrees {state : RunState}
    (hok : answersAgree s (.advance c answer fresh) = true)
    (hst : pollStores s c answer = some (row, state)) (hterm : row.state.isTerminal = true) :
    state.isTerminal = true := by
  rw [answersAgree, Bool.and_eq_true] at hok
  have hagree : row.state.isActive = true ∨ state.isTerminal = true := by simpa [hst] using hok.2
  rw [isTerminal_eq_not_isActive, Bool.not_eq_true'] at hterm
  rcases hagree with h | h
  · rw [hterm] at h
    cases h
  · exact h

theorem isTerminal_of_rowWrite {row' : ComputeRun}
    (hok : answersAgree s (.advance c answer fresh) = true) (hw : RowWrite s c answer row row')
    (hterm : row.state.isTerminal = true) :
    row'.state.isTerminal = true := by
  cases hw with
  | keep => exact hterm
  | reject => rfl
  | lose => rfl
  | @storeCreated data nodeRunId hst =>
    have hagree := createStores_agrees hok hst
    rw [isTerminal_eq_not_isActive] at hterm
    change (stateFromStatus (data.get? "status")).isTerminal = true
    rw [isTerminal_eq_not_isActive, ← hagree, hterm]
  | saveStatus hst => exact pollStores_agrees hok hst hterm

theorem stamped_saveStatus {now : DateTime} {data : Json} (hrow : row.Stamped)
    (hstate : row.state.isTerminal = true → (stateFromStatus (data.get? "status")).isTerminal = true)
    :
    (row.saveStatus now data).Stamped := by
  change Option.isSome (if (stateFromStatus (data.get? "status")).isTerminal &&
    row.terminalAt.isNone then some now else row.terminalAt) =
      (stateFromStatus (data.get? "status")).isTerminal
  cases hstamp : row.terminalAt with
  | none => cases (stateFromStatus (data.get? "status")).isTerminal <;> rfl
  | some t =>
    have hover : row.state.isTerminal = true := by rw [← hrow, hstamp]; rfl
    rw [hstate hover]
    rfl

theorem stamped_of_rowWrite {row' : ComputeRun}
    (hok : answersAgree s (.advance c answer fresh) = true) (hw : RowWrite s c answer row row')
    (hrow : row.Stamped) : row'.Stamped := by
  cases hw with
  | keep => exact hrow
  | reject => rfl
  | lose => rfl
  | @storeCreated data nodeRunId hst =>
    have hagree := createStores_agrees hok hst
    change row.terminalAt.isSome = (stateFromStatus (data.get? "status")).isTerminal
    rw [hrow, isTerminal_eq_not_isActive, isTerminal_eq_not_isActive, hagree]
  | saveStatus hst => exact stamped_saveStatus hrow (pollStores_agrees hok hst)

/-! ## Every run -/

/-- A step whose answers agree keeps the finished runs stamped. -/
theorem stamped_of_step {cfg : Settings} {s' : State} {a : Action} (hi : Stamped s)
    (hok : answersAgree s a = true) (h : step cfg s a = some s') : Stamped s' := by
  rcases step_cases h with ⟨elapsed, rfl, rfl⟩ | ⟨c, call, rfl, hc, hentry, rfl⟩ |
    ⟨c, answer, fresh, call, rfl, hc, he⟩
  · exact hi
  · exact hi
  · intro run row' hrow'
    cases hrow : s.db.runs.find? run with
    | some row =>
      obtain ⟨row₁, hrow₁, hw⟩ := row_after hc he.runs hrow
      obtain rfl := Option.some.inj (hrow₁.symm.trans hrow')
      exact stamped_of_rowWrite hok hw (hi run row hrow)
    | none =>
      obtain ⟨t, n, -, rfl, -⟩ := row_inserted he.runs hrow hrow'
      rfl

def Over (run : Uuid) (s : State) : Prop :=
  ∃ row, s.db.runs.find? run = some row ∧ row.state.isTerminal = true

/-- A finished run stays finished. -/
theorem over_of_step {cfg : Settings} {s' : State} {a : Action} {run : Uuid} (ho : Over run s)
    (hok : answersAgree s a = true) (h : step cfg s a = some s') : Over run s' := by
  rcases step_cases h with ⟨elapsed, rfl, rfl⟩ | ⟨c, call, rfl, hc, hentry, rfl⟩ |
    ⟨c, answer, fresh, call, rfl, hc, he⟩
  · exact ho
  · exact ho
  · obtain ⟨row, hrow, hterm⟩ := ho
    obtain ⟨row', hrow', hw⟩ := row_after hc he.runs hrow
    exact ⟨row', hrow', isTerminal_of_rowWrite hok hw hterm⟩

/-- On a run whose answers agree with the rows they overwrite, a terminal run stays
terminal, and `terminal_at` is set on exactly the terminal runs. -/
theorem terminal_states_absorbing {cfg : Settings} {s : State}
    (h : Reach Init (step cfg) (fun s a => answersAgree s a) s) :
    (∀ s', Later (step cfg) (fun s a => answersAgree s a) s s' → ∀ run, Over run s → Over run s') ∧
      ∀ run row, s.db.runs.find? run = some row →
        (row.terminalAt.isSome = true ↔ row.state.isTerminal = true) := by
  constructor
  · intro s' hl run ho
    exact hl.keeps (fun s a s' _ ho hok hs => over_of_step ho hok hs) h ho
  · have hstamped : Stamped s := by
      refine h.invariant (fun s hi run row hrow => ?_) fun s a s' hi hok hs =>
        stamped_of_step hi hok hs
      rw [hi.1] at hrow
      cases hrow
    intro run row hrow
    rw [hstamped run row hrow]

/-- A poll that reports the end of a run, and a later poll that repeats it. -/
def completing : List Action :=
  openNode ++ submitRun 1 10 "a" (statusBody "ra" "running") ++ startPoll 2 10 ++ startPoll 3 10 ++
    [.advance 2 (statusBody "ra" "completed") 0]

/-- A completed run stays completed. -/
theorem terminal_states_absorbing_completed : ∃ s,
    exec (guarded (step minuteSettings) answersAgree) emptyState completing = some s ∧
    Over 10 s ∧
    (∀ s', Later (step minuteSettings) (fun s a => answersAgree s a) s s' → Over 10 s') := by
  have hrun : (exec (guarded (step minuteSettings) answersAgree) emptyState completing).any
      (fun s => (s.db.runs.find? 10).any fun row => row.state.isTerminal) = true := by
    decide +kernel
  obtain ⟨s, hs, hany⟩ := (Option.any_eq_true _ _).mp hrun
  obtain ⟨row, hrow, hterm⟩ := (Option.any_eq_true _ _).mp hany
  have hover : Over 10 s := ⟨row, hrow, hterm⟩
  exact ⟨s, hs, hover, fun s' hl =>
    (terminal_states_absorbing (reach_of_guarded_exec init_emptyState hs)).1 s' hl 10 hover⟩

/-- The late answer of a second poll brings a completed run back, and an answer to a
create that reports the end of the run leaves no stamp. -/
theorem terminal_states_not_absorbing :
    (∃ s s' run, Reach Init (step minuteSettings) Free s ∧ Later (step minuteSettings) Free s s' ∧
      Over run s ∧ ¬ Over run s') ∧
    ∃ s run row, Reach Init (step minuteSettings) Free s ∧ s.db.runs.find? run = some row ∧
      row.state.isTerminal = true ∧ row.terminalAt = none := by
  constructor
  · have hrun : (exec (step minuteSettings) emptyState completing).any (fun s =>
        (s.db.runs.find? 10).any (fun row => row.state.isTerminal) &&
          (exec (step minuteSettings) s [.advance 3 (statusBody "ra" "running") 0]).any fun s' =>
            (s'.db.runs.find? 10).any fun row => row.state.isActive) = true := by decide +kernel
    obtain ⟨s, hs, hboth⟩ := (Option.any_eq_true _ _).mp hrun
    rw [Bool.and_eq_true] at hboth
    obtain ⟨row, hrow, hterm⟩ := (Option.any_eq_true _ _).mp hboth.1
    obtain ⟨s', hs', hany⟩ := (Option.any_eq_true _ _).mp hboth.2
    obtain ⟨row', hrow', hactive⟩ := (Option.any_eq_true _ _).mp hany
    refine ⟨s, s', 10, reach_of_exec init_emptyState hs, later_of_exec hs', ⟨row, hrow, hterm⟩, ?_⟩
    rintro ⟨row₁, hrow₁, hterm₁⟩
    obtain rfl := Option.some.inj (hrow₁.symm.trans hrow')
    rw [isTerminal_eq_not_isActive, hactive] at hterm₁
    cases hterm₁
  · have hrun : (exec (step minuteSettings) emptyState
        (openNode ++ submitRun 1 10 "a" (statusBody "ra" "completed"))).any (fun s =>
          (s.db.runs.find? 10).any fun row => row.state.isTerminal && row.terminalAt.isNone) =
            true := by decide +kernel
    obtain ⟨s, hs, hany⟩ := (Option.any_eq_true _ _).mp hrun
    obtain ⟨row, hrow, hboth⟩ := (Option.any_eq_true _ _).mp hany
    rw [Bool.and_eq_true, Option.isNone_iff_eq_none] at hboth
    exact ⟨s, 10, row, reach_of_exec init_emptyState hs, hrow, hboth.1, hboth.2⟩

end FractalStudio.Gateway
