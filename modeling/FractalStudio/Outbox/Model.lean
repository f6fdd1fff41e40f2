import FractalStudio.Lib.Table
import FractalStudio.Lib.Transition
import Mathlib.Data.List.Perm.Subperm
import Mathlib.Data.List.Sort
import Mathlib.Logic.Function.Basic

/-!
# The transactional outbox and its workers

`repository.py` and `worker.py`. Each repository function is one transaction; its `now()` is the
instant at which the transaction began, so an action carries that instant and commits at the current
one. A worker runs one program point at a time between its transactions, and its heartbeat task runs
beside a handler. Producers append at any time.
-/
namespace FractalStudio.Outbox

abbrev EventId := Nat
abbrev WorkerId := Nat
abbrev DateTime := Nat

inductive OutboxStatus where
  | pending
  | leased
  | done
  | dead
  deriving DecidableEq

structure EventRow where
  eventType : String
  aggregateId : Nat
  idempotencyKey : String
  status : OutboxStatus
  availableAt : DateTime
  createdAt : DateTime
  leaseOwner : Option WorkerId
  leaseUntil : Option DateTime
  attemptCount : Nat
  retryCount : Nat
  lastErrorCode : Option String
  lastErrorAt : Option DateTime
  completedAt : Option DateTime
  deadAt : Option DateTime
  deriving DecidableEq

/-- What a claim hands to the worker. -/
structure OutboxEvent where
  id : EventId
  eventType : String
  retryCount : Nat
  deriving DecidableEq

structure NewOutboxEvent where
  eventType : String
  aggregateId : Nat
  idempotencyKey : String
  availableAt : Option DateTime
  deriving DecidableEq

/-- The `outbox_*` settings, and the event types the registry has a handler for. -/
structure Settings where
  leaseSeconds : Nat
  maxAttempts : Nat
  claimBatchSize : Nat
  backoffBaseSeconds : Nat
  backoffMaxSeconds : Nat
  registered : String → Bool

abbrev Events := Table EventId EventRow

/-! ## `repository.py` -/

def newRow (now : DateTime) (event : NewOutboxEvent) : EventRow where
  eventType := event.eventType
  aggregateId := event.aggregateId
  idempotencyKey := event.idempotencyKey
  status := .pending
  availableAt := event.availableAt.getD now
  createdAt := now
  leaseOwner := none
  leaseUntil := none
  attemptCount := 0
  retryCount := 0
  lastErrorCode := none
  lastErrorAt := none
  completedAt := none
  deadAt := none

def EventRow.sameKey (event : NewOutboxEvent) (row : EventRow) : Bool :=
  row.eventType = event.eventType && row.aggregateId = event.aggregateId &&
    row.idempotencyKey = event.idempotencyKey

/-- `append`: a duplicate key changes nothing. -/
def append (events : Events) (now : DateTime) (event : NewOutboxEvent) (fresh : EventId) :
    Option Events :=
  if (events.select fun _ row => row.sameKey event).isEmpty then
    events.insert? fresh (newRow now event)
  else some events

/-- The `WHERE` of the claim. -/
def EventRow.due (now : DateTime) (row : EventRow) : Bool :=
  (row.status = .pending && row.availableAt ≤ now) ||
    (row.status = .leased && row.leaseUntil.any (· ≤ now))

/-- `ORDER BY available_at, created_at, id`. -/
def claimOrder (a b : EventId × EventRow) : Prop :=
  a.2.availableAt < b.2.availableAt ∨ a.2.availableAt = b.2.availableAt ∧
    (a.2.createdAt < b.2.createdAt ∨ a.2.createdAt = b.2.createdAt ∧ a.1 ≤ b.1)

instance : DecidableRel claimOrder := fun a b => by unfold claimOrder; infer_instance

/-- The rows a claim selects; rows that another transaction holds are skipped. -/
def selectDue (events : Events) (now : DateTime) (locked : List EventId) (batchSize : Nat) :
    List EventId :=
  ((((events.select fun _ row => row.due now).filter fun e => e.1 ∉ locked).insertionSort
    claimOrder).take batchSize).map Prod.fst

def EventRow.lease (now : DateTime) (worker : WorkerId) (leaseSeconds : Nat) (row : EventRow) :
    EventRow :=
  { row with
    status := .leased
    leaseOwner := some worker
    leaseUntil := some (now + leaseSeconds)
    attemptCount := row.attemptCount + 1 }

/-- The `UPDATE` of `claim_due_batch`. -/
def leaseAll (events : Events) (now : DateTime) (worker : WorkerId) (leaseSeconds : Nat)
    (ids : List EventId) : Events :=
  events.updateWhere (fun id _ => id ∈ ids) fun _ => .lease now worker leaseSeconds

/-- The `RETURNING` of `claim_due_batch`. -/
def claimedEvent (events : Events) (id : EventId) : Option OutboxEvent :=
  (events.find? id).map fun row => ⟨id, row.eventType, row.retryCount⟩

/-- The `WHERE` of the four writes a lease owner makes. -/
def EventRow.ownedBy (worker : WorkerId) (row : EventRow) : Bool :=
  row.status = .leased && row.leaseOwner = some worker

/-- Update the event's row if the worker is its lease owner. -/
def updateOwned (events : Events) (id : EventId) (worker : WorkerId) (f : EventRow → EventRow) :
    Events :=
  events.updateWhere (fun k row => k = id && row.ownedBy worker) fun _ => f

/-- The update found its row. -/
def holdsLease (events : Events) (id : EventId) (worker : WorkerId) : Bool :=
  (events.find? id).any (·.ownedBy worker)

def EventRow.markDone (now : DateTime) (row : EventRow) : EventRow :=
  { row with status := .done, completedAt := some now, leaseOwner := none, leaseUntil := none }

def EventRow.renewLease (now : DateTime) (leaseSeconds : Nat) (row : EventRow) : EventRow :=
  { row with leaseUntil := some (now + leaseSeconds) }

def EventRow.deferSame (now : DateTime) (delaySeconds : Nat) (row : EventRow) : EventRow :=
  { row with
    status := .pending
    availableAt := now + delaySeconds
    leaseOwner := none
    leaseUntil := none }

/-- `reschedule_or_dead_letter`, on the row its `SELECT` found. -/
def EventRow.reschedule (now : DateTime) (errorCode : String) (maxAttempts backoffSeconds : Nat)
    (row : EventRow) : EventRow :=
  let dead := maxAttempts ≤ row.retryCount + 1
  { row with
    status := if dead then .dead else .pending
    availableAt := if dead then row.availableAt else now + backoffSeconds
    leaseOwner := none
    leaseUntil := none
    retryCount := row.retryCount + 1
    lastErrorCode := some errorCode
    lastErrorAt := some now
    deadAt := if dead then some now else row.deadAt }

def EventRow.expired (now : DateTime) (row : EventRow) : Bool :=
  row.status = .leased && row.leaseUntil.any (· ≤ now)

def releaseExpiredLeases (events : Events) (now : DateTime) : Events :=
  events.updateWhere (fun _ row => row.expired now) fun _ row =>
    { row with status := .pending, leaseOwner := none, leaseUntil := none }

/-! ## `worker.py` -/

/-- How a handler ends: it returns, raises `RescheduleOutboxEvent`, raises
`RetryableOutboxError`, or raises anything else. -/
inductive HandlerOutcome where
  | returned
  | deferred (delaySeconds : Nat)
  | retryable (code : String)
  | unexpected
  deriving DecidableEq

/-- The program points of `poll_once` and `_dispatch_claimed`; `beating` says that the heartbeat task
has not returned. -/
inductive Worker where
  | idle
  | batch (claimedAt : DateTime) (rest : List OutboxEvent)
  | handling (claimedAt : DateTime) (event : OutboxEvent) (rest : List OutboxEvent) (beating : Bool)
  | settling (claimedAt : DateTime) (event : OutboxEvent) (rest : List OutboxEvent) (beating : Bool)
      (outcome : HandlerOutcome)
  | deadLettering (claimedAt : DateTime) (event : OutboxEvent) (rest : List OutboxEvent)
      (beating : Bool)
  deriving DecidableEq

def errorCodeOk (code : String) : Bool :=
  match code.toList with
  | [] => false
  | c :: rest => c.isLower && rest.length ≤ 119 &&
      rest.all fun d => d.isLower || d.isDigit || d = '_'

def backoffSeconds (cfg : Settings) (retryCount : Nat) : Nat :=
  min (cfg.backoffBaseSeconds * 2 ^ retryCount) cfg.backoffMaxSeconds

/-- What the transaction after a handler does to a row the worker owns. -/
def settleRow (cfg : Settings) (now : DateTime) (event : OutboxEvent) :
    HandlerOutcome → EventRow → EventRow
  | .returned => .markDone now
  | .deferred delaySeconds => .deferSame now delaySeconds
  | .retryable code => .reschedule now (if errorCodeOk code then code else "handler_retry_failed")
      cfg.maxAttempts (backoffSeconds cfg event.retryCount)
  | .unexpected => .reschedule now "handler_unexpected_error" cfg.maxAttempts
      (backoffSeconds cfg event.retryCount)

/-- The table of events, the clock and the workers. -/
structure State where
  events : Events
  now : DateTime
  workers : WorkerId → Worker

def State.put (s : State) (w : WorkerId) (p : Worker) : State :=
  { s with workers := Function.update s.workers w p }

def State.setEvents (s : State) (events : Events) : State := { s with events }

/-- The claim of an idle worker. `txnNow` is when the transaction began, `locked`
are the rows other transactions hold, and `returned` is the order of `RETURNING`. -/
def claim (cfg : Settings) (s : State) (w : WorkerId) (txnNow : DateTime)
    (locked returned : List EventId) : Option State :=
  let ids := selectDue s.events txnNow locked cfg.claimBatchSize
  if s.workers w = .idle ∧ txnNow ≤ s.now ∧ returned.isPerm ids then
    let events := leaseAll s.events txnNow w cfg.leaseSeconds ids
    some ((s.setEvents events).put w (.batch txnNow (returned.filterMap (claimedEvent events))))
  else none

/-- Take the next event of the batch and start its handler and its heartbeat. -/
def dispatch (s : State) (w : WorkerId) : Option State :=
  match s.workers w with
  | .batch claimedAt (event :: rest) => some (s.put w (.handling claimedAt event rest true))
  | .batch _ [] => some (s.put w .idle)
  | _ => none

/-- One round of `_renew_lease_until_cancelled`; the task returns when the lease is lost. -/
def heartbeat (cfg : Settings) (s : State) (w : WorkerId) (txnNow : DateTime) : Option State :=
  let renew (event : OutboxEvent) (next : Bool → Worker) : Option State :=
    if txnNow ≤ s.now then
      some ((s.setEvents (updateOwned s.events event.id w
        (.renewLease txnNow cfg.leaseSeconds))).put w (next (holdsLease s.events event.id w)))
    else none
  match s.workers w with
  | .handling claimedAt event rest true => renew event fun b => .handling claimedAt event rest b
  | .settling claimedAt event rest true outcome =>
    renew event fun b => .settling claimedAt event rest b outcome
  | .deadLettering claimedAt event rest true =>
    renew event fun b => .deadLettering claimedAt event rest b
  | _ => none

def finish (cfg : Settings) (s : State) (w : WorkerId) (outcome : HandlerOutcome) : Option State :=
  match s.workers w with
  | .handling claimedAt event rest beating =>
    let outcome := if cfg.registered event.eventType then outcome
      else .retryable "handler_not_registered"
    some (s.put w (.settling claimedAt event rest beating outcome))
  | _ => none

/-- The event is dead after `reschedule_or_dead_letter`. -/
def diesNow (cfg : Settings) (events : Events) (event : OutboxEvent) (w : WorkerId) :
    HandlerOutcome → Bool
  | .retryable _ | .unexpected =>
    (events.find? event.id).any fun row => row.ownedBy w && cfg.maxAttempts ≤ row.retryCount + 1
  | _ => false

/-- The transaction after the handler: `mark_done`, `defer_same_event` or `_fail`. -/
def settle (cfg : Settings) (s : State) (w : WorkerId) (txnNow : DateTime) : Option State :=
  match s.workers w with
  | .settling claimedAt event rest beating outcome =>
    if txnNow ≤ s.now then
      let next := if diesNow cfg s.events event w outcome then
          .deadLettering claimedAt event rest beating
        else .batch claimedAt rest
      some ((s.setEvents (updateOwned s.events event.id w
        (settleRow cfg txnNow event outcome))).put w next)
    else none
  | _ => none

/-- The dead-letter handler ends; its errors are logged and dropped. -/
def endDeadLetter (s : State) (w : WorkerId) : Option State :=
  match s.workers w with
  | .deadLettering claimedAt _ rest _ => some (s.put w (.batch claimedAt rest))
  | _ => none

inductive Action where
  | tick (elapsed : Nat)
  | append (txnNow : DateTime) (event : NewOutboxEvent) (fresh : EventId)
  | claim (w : WorkerId) (txnNow : DateTime) (locked returned : List EventId)
  | dispatch (w : WorkerId)
  | heartbeat (w : WorkerId) (txnNow : DateTime)
  | finish (w : WorkerId) (outcome : HandlerOutcome)
  | settle (w : WorkerId) (txnNow : DateTime)
  | endDeadLetter (w : WorkerId)
  | releaseExpiredLeases (txnNow : DateTime)

def step (cfg : Settings) (s : State) : Action → Option State
  | .tick elapsed => some { s with now := s.now + elapsed }
  | .append txnNow event fresh =>
    if txnNow ≤ s.now then
      (append s.events txnNow event fresh).map s.setEvents
    else none
  | .claim w txnNow locked returned => claim cfg s w txnNow locked returned
  | .dispatch w => dispatch s w
  | .heartbeat w txnNow => heartbeat cfg s w txnNow
  | .finish w outcome => finish cfg s w outcome
  | .settle w txnNow => settle cfg s w txnNow
  | .endDeadLetter w => endDeadLetter s w
  | .releaseExpiredLeases txnNow =>
    if txnNow ≤ s.now then some (s.setEvents (releaseExpiredLeases s.events txnNow)) else none

/-- No events, and every worker between polls. -/
def Init (s : State) : Prop := s.events = .empty ∧ s.workers = fun _ => .idle

/-! ## What one step does to a row -/

def Worker.current : Worker → Option OutboxEvent
  | .handling _ event _ _ | .settling _ event _ _ _ | .deadLettering _ event _ _ => some event
  | _ => none

def Worker.rest : Worker → List OutboxEvent
  | .idle => []
  | .batch _ rest | .handling _ _ rest _ | .settling _ _ rest _ _ | .deadLettering _ _ rest _ => rest

/-- When the transaction of its claim began; an idle worker has none. -/
def Worker.claimedAt : Worker → DateTime
  | .idle => 0
  | .batch t _ | .handling t _ _ _ | .settling t _ _ _ _ | .deadLettering t _ _ _ => t

def Worker.queue (p : Worker) : List OutboxEvent := p.current.toList ++ p.rest

/-- The worker goes on in its batch, or ends it. -/
structure Advances (p p' : Worker) : Prop where
  claimedAt : p' = .idle ∨ p'.claimedAt = p.claimedAt
  queue : p'.queue <:+ p.queue
  rest : p'.rest <:+ p.rest

theorem Advances.refl (p : Worker) : Advances p p :=
  ⟨.inr rfl, List.suffix_refl _, List.suffix_refl _⟩

/-- How a step leaves the row of an event that exists. -/
inductive RowStep (cfg : Settings) (s : State) : Action → EventId → EventRow → EventRow → Prop
  | keep {a id row} : RowStep cfg s a id row row
  | lease {w txnNow locked returned id row} :
      txnNow ≤ s.now → row.due txnNow = true → id ∈ returned →
      RowStep cfg s (.claim w txnNow locked returned) id row (row.lease txnNow w cfg.leaseSeconds)
  | renew {w txnNow event row} :
      txnNow ≤ s.now → (s.workers w).current = some event → row.ownedBy w = true →
      RowStep cfg s (.heartbeat w txnNow) event.id row (row.renewLease txnNow cfg.leaseSeconds)
  | settle {w txnNow event row} (outcome : HandlerOutcome) :
      txnNow ≤ s.now → (s.workers w).current = some event → row.ownedBy w = true →
      RowStep cfg s (.settle w txnNow) event.id row (settleRow cfg txnNow event outcome row)
  | release {txnNow id row} :
      txnNow ≤ s.now → row.expired txnNow = true →
      RowStep cfg s (.releaseExpiredLeases txnNow) id row
        { row with status := .pending, leaseOwner := none, leaseUntil := none }

private theorem row_of_updateOwned {cfg : Settings} {s : State} {a : Action} {events : Events}
    {id k : EventId} {w : WorkerId} {f : EventRow → EventRow} {row : EventRow}
    (hrow : events.find? k = some row)
    (hstep : k = id → row.ownedBy w = true → RowStep cfg s a k row (f row)) :
    ∃ row', (updateOwned events id w f).find? k = some row' ∧ RowStep cfg s a k row row' := by
  refine ⟨_, by rw [updateOwned, Table.find?_updateWhere, hrow]; rfl, ?_⟩
  dsimp only
  split
  · next h =>
    rw [Bool.and_eq_true, decide_eq_true_eq] at h
    exact hstep h.1 h.2
  · exact .keep

theorem due_of_mem_selectDue {events : Events} {now : DateTime} {locked : List EventId} {n : Nat}
    {id : EventId} (h : id ∈ selectDue events now locked n) :
    ∃ row, events.find? id = some row ∧ row.due now = true := by
  obtain ⟨⟨k, row⟩, hmem, rfl⟩ := List.mem_map.mp h
  have hsorted := List.mem_of_mem_take hmem
  rw [List.mem_insertionSort, List.mem_filter, Table.mem_select] at hsorted
  exact ⟨row, hsorted.1⟩

theorem claim_inv {cfg : Settings} {s s' : State} {w : WorkerId} {txnNow : DateTime}
    {locked returned : List EventId} (h : claim cfg s w txnNow locked returned = some s') :
    s.workers w = .idle ∧ txnNow ≤ s.now ∧
      returned.Perm (selectDue s.events txnNow locked cfg.claimBatchSize) ∧
      s' = (s.setEvents (leaseAll s.events txnNow w cfg.leaseSeconds returned)).put w
        (.batch txnNow (returned.filterMap
          (claimedEvent (leaseAll s.events txnNow w cfg.leaseSeconds returned)))) := by
  unfold claim at h
  dsimp only at h
  split at h
  · next hok =>
    have hperm := List.isPerm_iff.mp hok.2.2
    have hsame : leaseAll s.events txnNow w cfg.leaseSeconds
        (selectDue s.events txnNow locked cfg.claimBatchSize) =
          leaseAll s.events txnNow w cfg.leaseSeconds returned := by
      simp only [leaseAll, hperm.mem_iff]
    rw [hsame] at h
    exact ⟨hok.1, hok.2.1, hperm, (Option.some.inj h).symm⟩
  · cases h

theorem heartbeat_inv {cfg : Settings} {s s' : State} {w : WorkerId} {txnNow : DateTime}
    (h : heartbeat cfg s w txnNow = some s') :
    ∃ event next, (s.workers w).current = some event ∧ txnNow ≤ s.now ∧
      Advances (s.workers w) next ∧
      s' = (s.setEvents (updateOwned s.events event.id w
        (.renewLease txnNow cfg.leaseSeconds))).put w next := by
  unfold heartbeat at h
  dsimp only at h
  split at h
  all_goals first | cases h | skip
  all_goals
    next hw =>
      split at h
      · next hle =>
        refine ⟨_, _, by rw [hw]; rfl, hle, ?_, (Option.some.inj h).symm⟩
        rw [hw]
        exact ⟨.inr rfl, List.suffix_refl _, List.suffix_refl _⟩
      · cases h

theorem settle_inv {cfg : Settings} {s s' : State} {w : WorkerId} {txnNow : DateTime}
    (h : settle cfg s w txnNow = some s') :
    ∃ claimedAt event rest beating outcome,
      s.workers w = .settling claimedAt event rest beating outcome ∧ txnNow ≤ s.now ∧
      s' = (s.setEvents (updateOwned s.events event.id w
        (settleRow cfg txnNow event outcome))).put w
          (if diesNow cfg s.events event w outcome then .deadLettering claimedAt event rest beating
            else .batch claimedAt rest) := by
  unfold settle at h
  split at h
  · next claimedAt event rest beating outcome hw =>
    split at h
    · next hle =>
      exact ⟨claimedAt, event, rest, beating, outcome, hw, hle, (Option.some.inj h).symm⟩
    · cases h
  · cases h

/-- What one step does to the table, the clock and the worker that takes it. -/
inductive StepTo (cfg : Settings) (s : State) : Action → State → Prop
  | ticked (elapsed : Nat) : StepTo cfg s (.tick elapsed) { s with now := s.now + elapsed }
  | appended {txnNow event fresh events} : append s.events txnNow event fresh = some events →
      StepTo cfg s (.append txnNow event fresh) (s.setEvents events)
  | claimed {w txnNow locked returned} (next : Worker) : txnNow ≤ s.now →
      returned.Perm (selectDue s.events txnNow locked cfg.claimBatchSize) →
      StepTo cfg s (.claim w txnNow locked returned)
        ((s.setEvents (leaseAll s.events txnNow w cfg.leaseSeconds returned)).put w next)
  | moved {a w next} : Advances (s.workers w) next → StepTo cfg s a (s.put w next)
  | renewed {w txnNow event next} : txnNow ≤ s.now → (s.workers w).current = some event →
      Advances (s.workers w) next →
      StepTo cfg s (.heartbeat w txnNow)
        ((s.setEvents (updateOwned s.events event.id w
          (.renewLease txnNow cfg.leaseSeconds))).put w next)
  | settled {w txnNow event next} (outcome : HandlerOutcome) : txnNow ≤ s.now →
      (s.workers w).current = some event → Advances (s.workers w) next →
      StepTo cfg s (.settle w txnNow)
        ((s.setEvents (updateOwned s.events event.id w
          (settleRow cfg txnNow event outcome))).put w next)
  | released {txnNow} : txnNow ≤ s.now →
      StepTo cfg s (.releaseExpiredLeases txnNow)
        (s.setEvents (releaseExpiredLeases s.events txnNow))

section Inversion
variable {cfg : Settings} {s s' : State} {a : Action} {w : WorkerId}

theorem dispatch_inv (h : dispatch s w = some s') :
    ∃ next, Advances (s.workers w) next ∧ s' = s.put w next := by
  unfold dispatch at h
  split at h
  · next claimedAt event rest hw =>
    refine ⟨_, ?_, (Option.some.inj h).symm⟩
    rw [hw]
    exact ⟨.inr rfl, List.suffix_refl _, List.suffix_cons _ _⟩
  · exact ⟨_, ⟨.inl rfl, List.nil_suffix, List.nil_suffix⟩, (Option.some.inj h).symm⟩
  · cases h

theorem finish_inv {outcome : HandlerOutcome} (h : finish cfg s w outcome = some s') :
    ∃ next, Advances (s.workers w) next ∧ s' = s.put w next := by
  unfold finish at h
  split at h
  · next claimedAt event rest beating hw =>
    refine ⟨_, ?_, (Option.some.inj h).symm⟩
    rw [hw]
    exact ⟨.inr rfl, List.suffix_refl _, List.suffix_refl _⟩
  · cases h

theorem endDeadLetter_inv (h : endDeadLetter s w = some s') :
    ∃ next, Advances (s.workers w) next ∧ s' = s.put w next := by
  unfold endDeadLetter at h
  split at h
  · next claimedAt event rest beating hw =>
    refine ⟨_, ?_, (Option.some.inj h).symm⟩
    rw [hw]
    exact ⟨.inr rfl, List.suffix_cons _ _, List.suffix_refl _⟩
  · cases h

/-- Everything a step can do, one case for each action. -/
theorem stepTo_of_step (h : step cfg s a = some s') : StepTo cfg s a s' := by
  cases a with
  | tick elapsed =>
    obtain rfl := Option.some.inj h
    exact .ticked elapsed
  | append txnNow event fresh =>
    simp only [step] at h
    split at h
    · obtain ⟨events, hev, rfl⟩ := Option.map_eq_some_iff.mp h
      exact .appended hev
    · cases h
  | claim w txnNow locked returned =>
    obtain ⟨-, hle, hperm, rfl⟩ := claim_inv h
    exact .claimed _ hle hperm
  | dispatch w =>
    obtain ⟨next, hadv, rfl⟩ := dispatch_inv h
    exact .moved hadv
  | heartbeat w txnNow =>
    obtain ⟨event, next, hcur, hle, hadv, rfl⟩ := heartbeat_inv h
    exact .renewed hle hcur hadv
  | finish w outcome =>
    obtain ⟨next, hadv, rfl⟩ := finish_inv h
    exact .moved hadv
  | settle w txnNow =>
    obtain ⟨claimedAt, event, rest, beating, outcome, hw, hle, rfl⟩ := settle_inv h
    have hcur : (s.workers w).current = some event := by rw [hw]; rfl
    refine .settled outcome hle hcur ?_
    rw [hw]
    split
    · exact ⟨.inr rfl, List.suffix_refl _, List.suffix_refl _⟩
    · exact ⟨.inr rfl, List.suffix_cons _ _, List.suffix_refl _⟩
  | endDeadLetter w =>
    obtain ⟨next, hadv, rfl⟩ := endDeadLetter_inv h
    exact .moved hadv
  | releaseExpiredLeases txnNow =>
    simp only [step] at h
    split at h
    · next hle =>
      obtain rfl := Option.some.inj h
      exact .released hle
    · cases h

end Inversion

/-- No step removes a row, and each changes it in a known way. -/
theorem row_after {cfg : Settings} {s s' : State} {a : Action} (h : step cfg s a = some s')
    {id : EventId} {row : EventRow} (hrow : s.events.find? id = some row) :
    ∃ row', s'.events.find? id = some row' ∧ RowStep cfg s a id row row' := by
  cases stepTo_of_step h with
  | ticked => exact ⟨row, hrow, .keep⟩
  | appended hev =>
    unfold append at hev
    split at hev
    · exact ⟨row, Table.find?_of_insert hev hrow, .keep⟩
    · obtain rfl := Option.some.inj hev
      exact ⟨row, hrow, .keep⟩
  | @claimed w txnNow locked returned next hle hperm =>
    refine ⟨_, by simp only [State.put, State.setEvents, leaseAll]; rw [Table.find?_updateWhere, hrow]; rfl, ?_⟩
    dsimp only
    split
    · next hmem =>
      have hid : id ∈ returned := of_decide_eq_true hmem
      obtain ⟨row₁, hrow₁, hdue⟩ := due_of_mem_selectDue (hperm.mem_iff.mp hid)
      obtain rfl := Option.some.inj (hrow₁.symm.trans hrow)
      exact .lease hle hdue hid
    · exact .keep
  | moved => exact ⟨row, hrow, .keep⟩
  | renewed hle hcur => exact row_of_updateOwned hrow fun hid hown => hid ▸ .renew hle hcur hown
  | settled outcome hle hcur =>
    exact row_of_updateOwned hrow fun hid hown => hid ▸ .settle outcome hle hcur hown
  | released hle =>
    refine ⟨_, by simp only [State.setEvents, releaseExpiredLeases]; rw [Table.find?_updateWhere, hrow]; rfl, ?_⟩
    dsimp only
    split
    · next hexp => exact .release hle hexp
    · exact .keep

theorem worker_after {cfg : Settings} {s s' : State} {a : Action} (h : step cfg s a = some s')
    (w : WorkerId) :
    (∃ txnNow locked returned, a = .claim w txnNow locked returned ∧
      claim cfg s w txnNow locked returned = some s') ∨ Advances (s.workers w) (s'.workers w) := by
  have hput : ∀ (v : WorkerId) (events : Events) (p : Worker),
      (v = w → Advances (s.workers v) p) →
      Advances (s.workers w) (((s.setEvents events).put v p).workers w) := by
    intro v events p hp
    by_cases hv : w = v
    · subst hv
      simpa only [State.put, State.setEvents, Function.update_self] using hp rfl
    · simpa only [State.put, State.setEvents, Function.update_of_ne hv] using .refl _
  cases stepTo_of_step h with
  | ticked => exact .inr (.refl _)
  | appended => exact .inr (.refl _)
  | @claimed v txnNow locked returned next =>
    by_cases hv : v = w
    · subst hv
      exact .inl ⟨txnNow, locked, returned, rfl, h⟩
    · exact .inr (hput v _ next fun heq => absurd heq hv)
  | @moved _ v next hadv => exact .inr (hput v s.events next fun _ => hadv)
  | @renewed v _ _ next _ _ hadv => exact .inr (hput v _ next fun _ => hadv)
  | @settled v _ _ next _ _ _ hadv => exact .inr (hput v _ next fun _ => hadv)
  | released => exact .inr (.refl _)

/-- The clock never goes back. -/
theorem now_le_of_step {cfg : Settings} {s s' : State} {a : Action} (h : step cfg s a = some s') :
    s.now ≤ s'.now := by
  cases stepTo_of_step h with
  | ticked elapsed => exact Nat.le_add_right _ _
  | _ => exact le_refl _

end FractalStudio.Outbox
