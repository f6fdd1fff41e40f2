import FractalStudio.Outbox.Exclusion

/-!
# The life of an outbox event

What the five guarded updates leave of a row, over every schedule of the workers.
Each fact about a row is read off `RowStep`, which already says all that a step can
do to it; what remains is which rows a step can add.
-/
namespace FractalStudio.Outbox

open Transition

/-- The bounds `Settings` puts on the fields the workers read. -/
structure Settings.Valid (cfg : Settings) : Prop where
  leaseSeconds : 1 ≤ cfg.leaseSeconds ∧ cfg.leaseSeconds ≤ 300
  maxAttempts : 1 ≤ cfg.maxAttempts ∧ cfg.maxAttempts ≤ 100
  claimBatchSize : 1 ≤ cfg.claimBatchSize ∧ cfg.claimBatchSize ≤ 100
  backoffBaseSeconds : 1 ≤ cfg.backoffBaseSeconds ∧ cfg.backoffBaseSeconds ≤ 300
  backoffMaxSeconds : 1 ≤ cfg.backoffMaxSeconds ∧ cfg.backoffMaxSeconds ≤ 3600

def rowsOf (events : Events) (event : NewOutboxEvent) : List (EventId × EventRow) :=
  events.select fun _ row => row.sameKey event

def EventRow.over (row : EventRow) : Prop := row.status = .done ∨ row.status = .dead

def EventRow.live (row : EventRow) : Prop :=
  row.status = .pending ∨ row.status = .leased ∧ ∃ leaseUntil, row.leaseUntil = some leaseUntil

def Action.claims (w : WorkerId) (id : EventId) : Action → Prop
  | .claim v _ _ returned => v = w ∧ id ∈ returned
  | _ => False

/-- The worker that takes the step. -/
def Action.worker : Action → Option WorkerId
  | .tick _ | .append _ _ _ | .releaseExpiredLeases _ => none
  | .claim w _ _ _ | .dispatch w | .heartbeat w _ | .finish w _ | .settle w _ | .endDeadLetter w =>
    some w

def HandlerOutcome.failed : HandlerOutcome → Bool
  | .retryable _ | .unexpected => true
  | _ => false

/-- The lease owner of the event records the failure of its handler. -/
def RecordsFailure (s : State) (a : Action) (id : EventId) (row : EventRow) : Prop :=
  ∃ w txnNow claimedAt event rest beating outcome, a = .settle w txnNow ∧
    s.workers w = .settling claimedAt event rest beating outcome ∧ event.id = id ∧
    outcome.failed = true ∧ row.ownedBy w = true

/-! ## One step -/

variable {cfg : Settings} {s s' : State} {row : EventRow} {a : Action} {id : EventId}

theorem appended_of_new (h : step cfg s a = some s') (hnone : s.events.find? id = none)
    (hrow : s'.events.find? id = some row) :
    ∃ txnNow event, a = .append txnNow event id ∧ (rowsOf s.events event).isEmpty = true ∧
      row = newRow txnNow event := by
  have hsame : s'.events.find? id ≠ s.events.find? id := by
    rw [hrow, hnone]
    exact Option.some_ne_none row
  have hwrite : ∀ {p : EventId → EventRow → Bool} {f : EventId → EventRow → EventRow},
      (s.events.updateWhere p f).find? id ≠ some row := by
    intro p f
    rw [Table.find?_updateWhere, hnone]
    nofun
  cases stepTo_of_step h with
  | ticked => exact absurd rfl hsame
  | @appended txnNow event fresh events hev =>
    unfold append at hev
    split at hev
    · next hempty =>
      have hfind := Table.find?_insert hev id
      rw [show events.find? id = some row from hrow] at hfind
      split at hfind
      · next hid => exact ⟨txnNow, event, by rw [hid], hempty, Option.some.inj hfind⟩
      · rw [hnone] at hfind
        cases hfind
    · obtain rfl := Option.some.inj hev
      exact absurd rfl hsame
  | claimed => exact absurd hrow hwrite
  | moved => exact absurd rfl hsame
  | renewed => exact absurd hrow hwrite
  | settled => exact absurd hrow hwrite
  | released => exact absurd hrow hwrite

theorem row_before (h : step cfg s a = some s') {row' : EventRow}
    (hrow' : s'.events.find? id = some row') :
    (∃ row, s.events.find? id = some row ∧ RowStep cfg s a id row row') ∨
      ∃ txnNow event, a = .append txnNow event id ∧ (rowsOf s.events event).isEmpty = true ∧
        row' = newRow txnNow event := by
  cases hrow : s.events.find? id with
  | none => exact .inr (appended_of_new h hrow hrow')
  | some row =>
    obtain ⟨row'', hrow'', hstep⟩ := row_after h hrow
    obtain rfl := Option.some.inj (hrow''.symm.trans hrow')
    exact .inl ⟨row, rfl, hstep⟩

theorem sameKey_of_rowStep {row' : EventRow} (h : RowStep cfg s a id row row')
    (event : NewOutboxEvent) :
    row'.sameKey event = row.sameKey event := by
  cases h with
  | keep => rfl
  | lease => rfl
  | renew => rfl
  | settle outcome => cases outcome <;> rfl
  | release => rfl

variable {w : WorkerId}

theorem leased_of_ownedBy (h : row.ownedBy w = true) :
    row.status = .leased := (ownedBy_iff.mp h).1

variable {now : DateTime}

theorem leased_of_expired (h : row.expired now = true) :
    row.status = .leased := by
  rw [EventRow.expired, Bool.and_eq_true, decide_eq_true_eq] at h
  exact h.1

theorem not_due_of_over (h : row.over) : row.due now = false := by
  rcases h with h | h <;> simp [EventRow.due, h]

theorem eq_of_over {row' : EventRow} (h : RowStep cfg s a id row row') (hover : row.over) :
    row' = row := by
  have hleased : row.status ≠ .leased := by
    rcases hover with h | h <;> rw [h] <;> decide
  cases h with
  | keep => rfl
  | lease hle hdue hmem =>
    rw [not_due_of_over hover] at hdue
    cases hdue
  | renew hle hcur hown => exact absurd (leased_of_ownedBy hown) hleased
  | settle outcome hle hcur hown => exact absurd (leased_of_ownedBy hown) hleased
  | release hle hexp => exact absurd (leased_of_expired hexp) hleased

theorem eq_of_not_owner {row' : EventRow} (h : RowStep cfg s a id row row')
    (hw : a.worker = some w) (hclaim : ¬ a.claims w id) (howner : row.leaseOwner ≠ some w) :
    row' = row := by
  have hnot : ∀ v, some v = some w → row.ownedBy v ≠ true := by
    rintro v hv hown
    exact howner ((ownedBy_iff.mp hown).2.trans hv)
  cases h with
  | keep => rfl
  | lease hle hdue hmem => exact absurd ⟨Option.some.inj hw, hmem⟩ hclaim
  | renew hle hcur hown => exact absurd hown (hnot _ hw)
  | settle outcome hle hcur hown => exact absurd hown (hnot _ hw)
  | release => cases hw

theorem not_owner_of_rowStep {row' : EventRow} (h : RowStep cfg s a id row row')
    (hclaim : ¬ a.claims w id) (howner : row.leaseOwner ≠ some w) : row'.leaseOwner ≠ some w := by
  cases h with
  | keep => exact howner
  | lease hle hdue hmem =>
    intro hv
    exact hclaim ⟨Option.some.inj hv, hmem⟩
  | renew => exact howner
  | settle outcome =>
    cases outcome <;> nofun
  | release => nofun

/-- A retry is counted just where a failure is recorded. -/
theorem retryCount_after (h : step cfg s a = some s') (hrow : s.events.find? id = some row) :
    ∃ row', s'.events.find? id = some row' ∧ (row'.retryCount = row.retryCount ∨
      row'.retryCount = row.retryCount + 1 ∧ RecordsFailure s a id row) := by
  obtain ⟨row', hrow', hstep⟩ := row_after h hrow
  refine ⟨row', hrow', ?_⟩
  cases hstep with
  | keep => exact .inl rfl
  | lease => exact .inl rfl
  | renew => exact .inl rfl
  | release => exact .inl rfl
  | @settle w txnNow event _ outcome' hle hcur hown =>
    -- the outcome that counts is the one at the worker's program point
    obtain ⟨claimedAt, event', rest, beating, outcome, hw, -, rfl⟩ := settle_inv h
    rw [hw] at hcur
    obtain rfl : event' = event := Option.some.inj hcur
    have hwrite : settleRow cfg txnNow event' outcome' row =
        settleRow cfg txnNow event' outcome row := by
      have hfind : (updateOwned s.events event'.id w (settleRow cfg txnNow event' outcome)).find?
          event'.id = some (settleRow cfg txnNow event' outcome row) := by
        rw [updateOwned, Table.find?_updateWhere, hrow]
        simp [hown]
      exact Option.some.inj (hrow'.symm.trans hfind)
    rw [hwrite]
    have hfail : outcome.failed = true → RecordsFailure s (.settle w txnNow) event'.id row :=
      fun hf => ⟨w, txnNow, claimedAt, event', rest, beating, outcome, rfl, hw, rfl, hf, hown⟩
    cases outcome with
    | returned => exact .inl rfl
    | deferred delaySeconds => exact .inl rfl
    | retryable code => exact .inr ⟨rfl, hfail rfl⟩
    | unexpected => exact .inr ⟨rfl, hfail rfl⟩

/-! ## The invariant -/

/-- A row leased by its owner has an end of the lease, and the retry budget of a row
is spent exactly when it is dead. -/
structure EventRow.Wf (cfg : Settings) (row : EventRow) : Prop where
  leaseUntil : row.status = .leased → ∃ leaseUntil, row.leaseUntil = some leaseUntil
  budget : row.status = .dead ↔ cfg.maxAttempts ≤ row.retryCount

theorem wf_newRow (hcfg : cfg.Valid) (txnNow : DateTime) (event : NewOutboxEvent) :
    (newRow txnNow event).Wf cfg := by
  refine ⟨fun h => (by cases h), fun h => (by cases h), fun h => ?_⟩
  have hpos := hcfg.maxAttempts.1
  have hzero : cfg.maxAttempts ≤ 0 := h
  omega

theorem wf_settleRow {event : OutboxEvent} {outcome : HandlerOutcome} (hwf : row.Wf cfg)
    (hleased : row.status = .leased) :
    (settleRow cfg now event outcome row).Wf cfg := by
  have hlive : ¬ cfg.maxAttempts ≤ row.retryCount := by
    rw [← hwf.budget, hleased]
    decide
  have hfail : ∀ code backoff, (row.reschedule now code cfg.maxAttempts backoff).Wf cfg := by
    intro code backoff
    by_cases hdead : cfg.maxAttempts ≤ row.retryCount + 1
    · exact ⟨fun h => by simp [EventRow.reschedule, hdead] at h,
        by simp [EventRow.reschedule, hdead]⟩
    · exact ⟨fun h => by simp [EventRow.reschedule, hdead] at h,
        by simp [EventRow.reschedule, hdead]⟩
  cases outcome with
  | returned => exact ⟨fun h => (by cases h), fun h => (by cases h), fun h => absurd h hlive⟩
  | deferred delaySeconds =>
    exact ⟨fun h => (by cases h), fun h => (by cases h), fun h => absurd h hlive⟩
  | retryable code => exact hfail _ _
  | unexpected => exact hfail _ _

theorem wf_of_rowStep {row' : EventRow} (h : RowStep cfg s a id row row') (hwf : row.Wf cfg) :
    row'.Wf cfg := by
  have hlive : row.status ≠ .dead → ¬ cfg.maxAttempts ≤ row.retryCount :=
    fun hne hle => hne (hwf.budget.mpr hle)
  cases h with
  | keep => exact hwf
  | lease hle hdue hmem =>
    have hne : row.status ≠ .dead := by
      intro hdead
      rw [not_due_of_over (.inr hdead)] at hdue
      cases hdue
    exact ⟨fun _ => ⟨_, rfl⟩, fun h => (by cases h), fun h => absurd h (hlive hne)⟩
  | renew hle hcur hown => exact ⟨fun _ => ⟨_, rfl⟩, hwf.budget⟩
  | settle outcome hle hcur hown => exact wf_settleRow hwf (leased_of_ownedBy hown)
  | release hle hexp =>
    have hne : row.status ≠ .dead := by
      rw [leased_of_expired hexp]
      decide
    exact ⟨fun h => (by cases h), fun h => (by cases h), fun h => absurd h (hlive hne)⟩

/-- Every row is well formed. -/
structure RowsWf (cfg : Settings) (s : State) : Prop where
  wf : ∀ id row, s.events.find? id = some row → row.Wf cfg
  unique : ∀ event id₁ row₁ id₂ row₂,
    s.events.find? id₁ = some row₁ → row₁.sameKey event = true →
    s.events.find? id₂ = some row₂ → row₂.sameKey event = true → id₁ = id₂

/-- The outbox is empty at first. -/
theorem rowsWf_of_init (h : Init s) : RowsWf cfg s := by
  have hnone : ∀ id row, s.events.find? id ≠ some row := by
    intro id row
    rw [h.1, Table.find?_empty]
    nofun
  exact ⟨fun id row hrow => absurd hrow (hnone id row),
    fun _ id row _ _ hrow => absurd hrow (hnone id row)⟩

variable {event : NewOutboxEvent}

theorem sameKey_comm {event' : NewOutboxEvent} (hnew : (newRow now event).sameKey event' = true)
    (hrow : row.sameKey event' = true) :
    row.sameKey event = true := by
  simp only [EventRow.sameKey, Bool.and_eq_true, decide_eq_true_eq] at hnew hrow ⊢
  obtain ⟨⟨htype, haggregate⟩, hkey⟩ := hnew
  exact ⟨⟨hrow.1.1.trans htype.symm, hrow.1.2.trans haggregate.symm⟩, hrow.2.trans hkey.symm⟩

theorem not_sameKey_of_rowsOf {events : Events} (hempty : (rowsOf events event).isEmpty = true)
    (hrow : events.find? id = some row) : row.sameKey event ≠ true := by
  intro hkey
  have hmem : (id, row) ∈ rowsOf events event := Table.mem_select.mpr ⟨hrow, hkey⟩
  rw [List.isEmpty_iff.mp hempty] at hmem
  cases hmem

/-- Every step keeps the rows well formed. -/
theorem rowsWf_of_step (hcfg : cfg.Valid) (hi : RowsWf cfg s) (h : step cfg s a = some s') :
    RowsWf cfg s' := by
  refine ⟨fun id row' hrow' => ?_, fun event id₁ row₁ id₂ row₂ hrow₁ hkey₁ hrow₂ hkey₂ => ?_⟩
  · rcases row_before h hrow' with ⟨row, hrow, hstep⟩ | ⟨txnNow, event, -, -, rfl⟩
    · exact wf_of_rowStep hstep (hi.wf id row hrow)
    · exact wf_newRow hcfg txnNow event
  · rcases row_before h hrow₁ with ⟨old₁, hold₁, hstep₁⟩ | ⟨now₁, event₁, ha₁, hempty₁, rfl⟩
    · rw [sameKey_of_rowStep hstep₁] at hkey₁
      rcases row_before h hrow₂ with ⟨old₂, hold₂, hstep₂⟩ | ⟨now₂, event₂, ha₂, hempty₂, rfl⟩
      · rw [sameKey_of_rowStep hstep₂] at hkey₂
        exact hi.unique event id₁ old₁ id₂ old₂ hold₁ hkey₁ hold₂ hkey₂
      · exact absurd (sameKey_comm hkey₂ hkey₁) (not_sameKey_of_rowsOf hempty₂ hold₁)
    · rcases row_before h hrow₂ with ⟨old₂, hold₂, hstep₂⟩ | ⟨now₂, event₂, ha₂, hempty₂, rfl⟩
      · rw [sameKey_of_rowStep hstep₂] at hkey₂
        exact absurd (sameKey_comm hkey₁ hkey₂) (not_sameKey_of_rowsOf hempty₁ hold₂)
      · rw [ha₁] at ha₂
        injection ha₂

/-- The rows are well formed in every state that is reached. -/
theorem rowsWf_of_reach (hcfg : cfg.Valid) (hr : Reach Init (step cfg) Free s) : RowsWf cfg s :=
  hr.invariant (fun _ => rowsWf_of_init) fun _ _ _ hi _ h => rowsWf_of_step hcfg hi h

/-! ## Runs -/

theorem rowsOf_length_le_one (hi : RowsWf cfg s) (event : NewOutboxEvent) :
    (rowsOf s.events event).length ≤ 1 := by
  refine Table.length_le_one (Table.nodup_select s.events _).of_map ?_
  rintro ⟨id₁, row₁⟩ h₁ ⟨id₂, row₂⟩ h₂
  obtain ⟨hrow₁, hkey₁⟩ := Table.mem_select.mp h₁
  obtain ⟨hrow₂, hkey₂⟩ := Table.mem_select.mp h₂
  obtain rfl := hi.unique event id₁ row₁ id₂ row₂ hrow₁ hkey₁ hrow₂ hkey₂
  rw [Option.some.inj (hrow₁.symm.trans hrow₂)]

def Recorded (s : State) (event : NewOutboxEvent) : Prop :=
  ∃ id row, s.events.find? id = some row ∧ row.sameKey event = true

theorem recorded_of_append {txnNow : DateTime} {fresh : EventId}
    (h : step cfg s (.append txnNow event fresh) = some s') : Recorded s' event := by
  simp only [step] at h
  split at h
  · obtain ⟨events, hev, rfl⟩ := Option.map_eq_some_iff.mp h
    unfold append at hev
    split at hev
    · refine ⟨fresh, newRow txnNow event, ?_, by simp [EventRow.sameKey, newRow]⟩
      rw [show (s.setEvents events).events = events from rfl, Table.find?_insert hev, if_pos rfl]
    · next hsome =>
      obtain rfl := Option.some.inj hev
      rw [List.isEmpty_iff] at hsome
      obtain ⟨⟨id, row⟩, hmem⟩ := List.exists_mem_of_ne_nil _ hsome
      exact ⟨id, row, Table.mem_select.mp hmem⟩
  · cases h

/-- No step forgets an event that was added. -/
theorem recorded_of_step (h : step cfg s a = some s') (hrec : Recorded s event) :
    Recorded s' event := by
  obtain ⟨id, row, hrow, hkey⟩ := hrec
  obtain ⟨row', hrow', hstep⟩ := row_after h hrow
  exact ⟨id, row', hrow', (sameKey_of_rowStep hstep event).trans hkey⟩

theorem rowsOf_length_pos (h : Recorded s event) :
    0 < (rowsOf s.events event).length := by
  obtain ⟨id, row, hrow⟩ := h
  exact List.length_pos_of_mem (Table.mem_select.mpr hrow)

/-- Whatever the workers do from `s` on, short of a claim of the event by `w`. -/
abbrev LaterUnclaimed (cfg : Settings) (w : WorkerId) (id : EventId) : State → State → Prop :=
  Later (step cfg) fun _ a => ¬ a.claims w id

theorem not_owner_of_later (hl : LaterUnclaimed cfg w id s s')
    (hlost : ∃ row, s.events.find? id = some row ∧ row.leaseOwner ≠ some w) :
    ∃ row, s'.events.find? id = some row ∧ row.leaseOwner ≠ some w := by
  induction hl with
  | refl => exact hlost
  | tail _ hm ih =>
    obtain ⟨a, hclaim, hs⟩ := hm
    obtain ⟨row, hrow, howner⟩ := ih
    obtain ⟨row', hrow', hstep⟩ := row_after hs hrow
    exact ⟨row', hrow', not_owner_of_rowStep hstep hclaim howner⟩

theorem live_of_wf (hwf : row.Wf cfg) (hover : ¬ row.over) :
    row.live := by
  unfold EventRow.over at hover
  cases hst : row.status with
  | pending => exact .inl hst
  | leased => exact .inr ⟨hst, hwf.leaseUntil hst⟩
  | done => exact absurd (.inl hst) hover
  | dead => exact absurd (.inr hst) hover

theorem due_of_live (h : row.live) :
    ∃ start, ∀ now, start ≤ now → row.due now = true := by
  rcases h with hpending | ⟨hleased, leaseUntil, huntil⟩
  · exact ⟨row.availableAt, fun now hle => by simp [EventRow.due, hpending, hle]⟩
  · exact ⟨leaseUntil, fun now hle => by simp [EventRow.due, hleased, huntil, hle]⟩

/-- What becomes of an event. -/
structure LifeCycle (cfg : Settings) (s : State) : Prop where
  one_row : ∀ event, (rowsOf s.events event).length ≤ 1
  appended : ∀ txnNow event fresh s₁ s₂, step cfg s (.append txnNow event fresh) = some s₁ →
    Later (step cfg) Free s₁ s₂ → (rowsOf s₂.events event).length = 1
  absorbing : ∀ id row s', s.events.find? id = some row → row.over →
    Later (step cfg) Free s s' → s'.events.find? id = some row
  claimable : ∀ id row, s.events.find? id = some row → ¬ row.over →
    row.live ∧ ∃ start, ∀ now, start ≤ now → row.due now = true
  stale : ∀ v w id row s₁ s₂ a, s.events.find? id = some row → row.leaseOwner = some v → v ≠ w →
    LaterUnclaimed cfg w id s s₁ → a.worker = some w → ¬ a.claims w id →
    step cfg s₁ a = some s₂ → s₂.events.find? id = s₁.events.find? id
  dead_iff : ∀ id row, s.events.find? id = some row →
    (row.status = .dead ↔ cfg.maxAttempts ≤ row.retryCount)
  retry : ∀ id row a s', s.events.find? id = some row → step cfg s a = some s' →
    ∃ row', s'.events.find? id = some row' ∧ (row'.retryCount = row.retryCount ∨
      row'.retryCount = row.retryCount + 1 ∧ RecordsFailure s a id row)

/-- The whole life of an event: from its business change through every attempt to success or to the
dead letters. -/
theorem lifeCycle_of_reach {cfg : Settings} {s : State} (hcfg : cfg.Valid)
    (hr : Reach Init (step cfg) Free s) : LifeCycle cfg s where
  one_row := rowsOf_length_le_one (rowsWf_of_reach hcfg hr)
  appended := by
    intro txnNow event fresh s₁ s₂ hs hl
    have hr₁ := Reach.next hr trivial hs
    have hrec : Recorded s₂ event := by
      refine Later.keeps (P := fun t => Recorded t event) ?_ hr₁ hl (recorded_of_append hs)
      intro t a t' _ hrec _ ht
      exact recorded_of_step ht hrec
    have hle := rowsOf_length_le_one (rowsWf_of_reach hcfg (hr₁.later hl)) event
    have hpos := rowsOf_length_pos hrec
    omega
  absorbing := by
    intro id row s' hrow hover hl
    refine Later.keeps (P := fun t => t.events.find? id = some row) ?_ hr hl hrow
    intro t a t' _ ht _ hstep
    obtain ⟨row', hrow', hrs⟩ := row_after hstep ht
    rw [hrow', eq_of_over hrs hover]
  claimable := by
    intro id row hrow hover
    have hlive := live_of_wf ((rowsWf_of_reach hcfg hr).wf id row hrow) hover
    exact ⟨hlive, due_of_live hlive⟩
  stale := by
    intro v w id row s₁ s₂ a hrow howner hne hl hw hclaim hs
    have hlost : row.leaseOwner ≠ some w := by
      rw [howner]
      exact fun h => hne (Option.some.inj h)
    obtain ⟨row₁, hrow₁, howner₁⟩ := not_owner_of_later hl ⟨row, hrow, hlost⟩
    obtain ⟨row₂, hrow₂, hstep⟩ := row_after hs hrow₁
    rw [hrow₁, hrow₂, eq_of_not_owner hstep hw hclaim howner₁]
  dead_iff := by
    intro id row hrow
    exact ((rowsWf_of_reach hcfg hr).wf id row hrow).budget
  retry := by
    intro id row a s' hrow hs
    exact retryCount_after hs hrow

/-- Worker 1 has done event 1, and worker 2 has taken event 2 over from it. -/
theorem lifeCycle_slowFirst : ∃ s, exec (step halfMinute) emptyState slowFirst = some s ∧
    (s.events.find? 1).any (·.status = .done) = true ∧
    (s.events.find? 2).any (·.ownedBy 2) = true ∧ LifeCycle halfMinute s := by
  have hrun : (exec (step halfMinute) emptyState slowFirst).any (fun s =>
      (s.events.find? 1).any (·.status = .done) && (s.events.find? 2).any (·.ownedBy 2)) = true := by
    decide +kernel
  obtain ⟨s, hs, hall⟩ := (Option.any_eq_true _ _).mp hrun
  rw [Bool.and_eq_true] at hall
  have hcfg : halfMinute.Valid := by constructor <;> decide
  exact ⟨s, hs, hall.1, hall.2, lifeCycle_of_reach hcfg (reach_of_exec init_emptyState hs)⟩

end FractalStudio.Outbox
