import FractalStudio.Lib.Transition
import FractalStudio.Platform.Schema

/-!
# The ledger of AI requests

`ai/service.py`, `ai/listing_service.py` and `ai/cleanup.py` as transactions on `ai_requests`. A
statement sees the committed rows and what its own transaction wrote, and waits for a row that
another open transaction wrote. `lock_ai_owner` is held until the transaction ends. Clocks, leases
and attempt times are any values.

What a transaction finds among the messages and listing copies is part of the action. `outputs`
collects the requests whose attempts committed output.
-/
namespace FractalStudio.Ai

open Platform (Uuid)

abbrev Time := Nat

abbrev TxId := Nat

/-! ## Rows -/

inductive RequestStatus
  | reserved | streaming | retrying | partialResult | completed | released | failed
deriving DecidableEq

/-- `_ACTIVE_STATUSES` -/
def RequestStatus.isActive : RequestStatus → Bool
  | .reserved | .streaming | .retrying => true
  | _ => false

/-- `_TRIAL_STATUSES` -/
def RequestStatus.isTrial : RequestStatus → Bool
  | .reserved | .streaming | .retrying | .partialResult | .completed => true
  | _ => false

structure AiRequest where
  ownerId : Uuid
  conversationId : Option Uuid
  userMessageId : Option Uuid
  assistantMessageId : Option Uuid
  idempotencyKey : Option String
  requestHash : Option String
  status : RequestStatus
  countsTowardTrial : Bool
  firstOutputAt : Option Time
  attemptStartedAt : Time
  leaseUntil : Option Time
deriving DecidableEq

namespace AiRequest

/-- The row counts for its owner. -/
def counted (r : AiRequest) : Bool := r.countsTowardTrial && r.status.isTrial

/-- `lease_until IS NULL OR lease_until<=now()` of an active request. -/
def recoverable (now : Time) (r : AiRequest) : Bool :=
  r.status.isActive && r.leaseUntil.all fun lease => lease ≤ now

/-- `recover_expired_requests`, and the same statement in `reserve_listing_copy`. -/
def recovered (r : AiRequest) : AiRequest :=
  { r with
    status := if r.firstOutputAt.isNone then .released else .partialResult
    leaseUntil := none }

def scrubbed (r : AiRequest) : AiRequest :=
  { r with
    conversationId := none
    userMessageId := none
    assistantMessageId := none
    idempotencyKey := none
    requestHash := none }

/-- `delete_expired_listing_copy` -/
def stripped (r : AiRequest) : AiRequest := { r with idempotencyKey := none, requestHash := none }

end AiRequest

/-- How much a row adds to the trial of an owner. -/
def weight (owner : Uuid) (r : AiRequest) : Nat :=
  if r.ownerId = owner ∧ r.counted = true then 1 else 0

def trialUsed (requests : Table Uuid AiRequest) (owner : Uuid) : Nat :=
  requests.sum fun _ r => weight owner r

def activeCount (requests : Table Uuid AiRequest) (owner : Uuid) : Nat :=
  (requests.select fun _ r => r.ownerId = owner && r.status.isActive).length

/-! ## Reservations -/

structure Settings where
  freeLifetimeLimit : Nat
  maxConcurrentPerUser : Nat

/-- The arguments of `reserve_request`; without a conversation, those of `reserve_listing_copy`. -/
structure Call where
  owner : Uuid
  key : String
  hash : String
  conversation : Option Uuid
deriving DecidableEq

inductive Outcome
  | refused (detail : String)
  | replayed
  | retried (id : Uuid)
  | reset (id : Uuid) (counts : Bool)
  | inserted (counts : Bool)
deriving DecidableEq

/-- The decision of `reserve_request`; `found` tells whether the answer is stored. -/
def chatOutcome (cfg : Settings) (call : Call) (conversation : Uuid) (found : Bool)
    (prior : Option (Uuid × AiRequest)) (member : Bool) (active used : Nat) : Outcome :=
  match prior with
  | some (id, r) =>
    if r.requestHash ≠ some call.hash ∨ r.conversationId ≠ some conversation then
      .refused "idempotency_conflict"
    else if r.status = .completed then
      if found then .replayed else .refused "idempotency_conflict"
    else if r.status ≠ .released ∧ r.status ≠ .failed ∧ r.status ≠ .partialResult then
      .refused "idempotency_in_progress"
    else if r.userMessageId = none then .refused "idempotency_conflict"
    else if cfg.maxConcurrentPerUser ≤ active then .refused "ai_concurrency_exhausted"
    else if r.status = .partialResult then .retried id
    else if !member ∧ cfg.freeLifetimeLimit ≤ used then .refused "AI_TRIAL_EXHAUSTED"
    else .reset id !member
  | none =>
    if cfg.maxConcurrentPerUser ≤ active then .refused "ai_concurrency_exhausted"
    else if !member ∧ cfg.freeLifetimeLimit ≤ used then .refused "AI_TRIAL_EXHAUSTED"
    else .inserted !member

/-- The decision of `reserve_listing_copy`. -/
def listingOutcome (cfg : Settings) (call : Call) (found : Bool)
    (prior : Option (Uuid × AiRequest)) (member : Bool) (active used : Nat) : Outcome :=
  match prior with
  | some (id, r) =>
    if r.requestHash ≠ some call.hash then .refused "idempotency_conflict"
    else if r.status = .completed then
      if found then .replayed else .refused "idempotency_conflict"
    else if r.status ≠ .released ∧ r.status ≠ .failed then .refused "idempotency_in_progress"
    else if cfg.maxConcurrentPerUser ≤ active then .refused "ai_concurrency_exhausted"
    else if !member ∧ cfg.freeLifetimeLimit ≤ used then .refused "AI_TRIAL_EXHAUSTED"
    else .reset id !member
  | none =>
    if cfg.maxConcurrentPerUser ≤ active then .refused "ai_concurrency_exhausted"
    else if !member ∧ cfg.freeLifetimeLimit ≤ used then .refused "AI_TRIAL_EXHAUSTED"
    else .inserted !member

def Call.outcome (cfg : Settings) (call : Call) (found : Bool) (prior : Option (Uuid × AiRequest))
    (member : Bool) (active used : Nat) : Outcome :=
  match call.conversation with
  | some conversation => chatOutcome cfg call conversation found prior member active used
  | none => listingOutcome cfg call found prior member active used

def priorOf (requests : Table Uuid AiRequest) (call : Call) : Option (Uuid × AiRequest) :=
  (requests.select fun _ r => r.ownerId = call.owner && r.idempotencyKey = some call.key).head?

/-- The identifiers and clock readings of a reservation. -/
structure Fresh where
  id : Uuid
  userMessage : Uuid
  assistantMessage : Uuid
  attempt : Time
  lease : Time
deriving DecidableEq

/-- The row of a new request; a listing copy has no messages. -/
def Call.row (call : Call) (fresh : Fresh) (counts : Bool) : AiRequest where
  ownerId := call.owner
  conversationId := call.conversation
  userMessageId := call.conversation.map fun _ => fresh.userMessage
  assistantMessageId := call.conversation.map fun _ => fresh.assistantMessage
  idempotencyKey := some call.key
  requestHash := some call.hash
  status := .reserved
  countsTowardTrial := counts
  firstOutputAt := none
  attemptStartedAt := fresh.attempt
  leaseUntil := some fresh.lease

/-- The message of the answer keeps its identifier; a listing copy has none. -/
def Call.answerId (call : Call) (fresh : Fresh) (r : AiRequest) : Option Uuid :=
  if call.conversation.isSome then some (r.assistantMessageId.getD fresh.assistantMessage)
  else r.assistantMessageId

def Call.retriedRow (call : Call) (fresh : Fresh) (r : AiRequest) : AiRequest :=
  { r with
    status := .retrying
    attemptStartedAt := fresh.attempt
    leaseUntil := some fresh.lease
    assistantMessageId := call.answerId fresh r }

def Call.resetRow (call : Call) (fresh : Fresh) (counts : Bool) (r : AiRequest) : AiRequest :=
  { r with
    status := .reserved
    firstOutputAt := none
    attemptStartedAt := fresh.attempt
    leaseUntil := some fresh.lease
    assistantMessageId := call.answerId fresh r
    countsTowardTrial := counts }

/-! ## Transactions -/

/-- What a reservation has read. -/
structure Reading where
  call : Call
  prior : Option (Uuid × AiRequest)
  member : Option Bool
  counts : Option (Nat × Nat)

/-- An open transaction: the owners it has locked, the rows it has written, the conversations it has
deleted, and what a reservation has read. -/
structure Tx where
  id : TxId
  owners : List Uuid
  locks : Uuid → Bool
  pending : Uuid → AiRequest → AiRequest
  deleted : List Uuid
  reading : Option Reading

namespace Tx
variable (tx : Tx) (requests : Table Uuid AiRequest)

/-- The version of a row that the transaction sees. -/
def current (k : Uuid) (r : AiRequest) : AiRequest := if tx.locks k then tx.pending k r else r

def view : Table Uuid AiRequest := requests.updateWhere (fun k _ => tx.locks k) tx.pending

/-- The rows that a statement of the transaction finds. -/
def hits (p : Uuid → AiRequest → Bool) (k : Uuid) : Bool :=
  (requests.find? k).any fun r => p k (tx.current k r)

def update (p : Uuid → AiRequest → Bool) (f : AiRequest → AiRequest) : Tx :=
  { tx with
    locks := fun k => tx.locks k || tx.hits requests p k
    pending := fun k r => if tx.hits requests p k then f (tx.current k r) else tx.current k r }

end Tx

structure State where
  requests : Table Uuid AiRequest
  conversations : List (Uuid × Uuid)
  members : List Uuid
  txs : List Tx
  outputs : List Uuid

namespace State
variable (s : State)

def tx? (t : TxId) : Option Tx := s.txs.find? fun tx => tx.id = t

def others (t : TxId) : List Tx := s.txs.filter fun tx => tx.id ≠ t

def set (tx : Tx) : State := { s with txs := tx :: s.others tx.id }

/-- No transaction of the list has written a row that a statement finds. -/
def rowsFree (txs : List Tx) (p : Uuid → AiRequest → Bool) : Bool :=
  s.requests.rows.all fun row => !p row.1 row.2 || txs.all fun tx => !tx.locks row.1

/-- A statement of an open transaction. -/
def statement (tx : Tx) (p : Uuid → AiRequest → Bool) (f : AiRequest → AiRequest) :
    Option State :=
  if s.rowsFree (s.others tx.id) fun k r => p k (tx.current k r) then
    some (s.set (tx.update s.requests p f))
  else none

def commit (tx : Tx) : State :=
  { s with
    requests := tx.view s.requests
    conversations := s.conversations.filter fun c => !tx.deleted.contains c.1
    txs := s.others tx.id }

def abort (tx : Tx) : State := { s with txs := s.others tx.id }

/-- A transaction of one statement. -/
def write (p : Uuid → AiRequest → Bool) (f : AiRequest → AiRequest) : Option State :=
  if s.rowsFree s.txs p then some { s with requests := s.requests.updateWhere p fun _ => f }
  else none

/-- A transaction of one statement with which an attempt commits output. -/
def writeOutput (p : Uuid → AiRequest → Bool) (f : AiRequest → AiRequest) (id : Uuid) :
    Option State :=
  if (s.requests.find? id).any (p id) then
    (s.write (fun k r => k = id && p k r) f).map fun s => { s with outputs := id :: s.outputs }
  else some s

/-- The update of a reservation and its commit; where it finds no row the reservation fails. -/
def finishUpdate (tx : Tx) (id : Uuid) (p : AiRequest → Bool) (f : AiRequest → AiRequest) :
    Option State :=
  let done := s.commit tx
  if (done.requests.find? id).any p then done.write (fun k r => k = id && p r) f
  else some (s.abort tx)

/-- The rest of a reservation. -/
def finishReserve (tx : Tx) (call : Call) (fresh : Fresh) : Outcome → Option State
  | .refused _ => some (s.abort tx)
  | .replayed => some (s.commit tx)
  | .retried id =>
    s.finishUpdate tx id (fun r => r.ownerId = call.owner && r.status = .partialResult)
      (call.retriedRow fresh)
  | .reset id counts =>
    s.finishUpdate tx id
      (fun r => r.ownerId = call.owner && (r.status = .released || r.status = .failed))
      (call.resetRow fresh counts)
  | .inserted counts =>
    -- `uq_ai_requests_owner_idempotency_live`
    if (priorOf (s.commit tx).requests call).isSome then some (s.abort tx)
    else
      match (s.commit tx).requests.insert? fresh.id (call.row fresh counts) with
      | some requests => some { s.commit tx with requests := requests }
      | none => some (s.abort tx)

/-- An owner whose lock nobody holds. -/
def ownerFree (txs : List Tx) (owner : Uuid) : Bool := txs.all fun tx => !tx.owners.contains owner

end State

/-! ## Steps -/

inductive Action
  | begin (t : TxId)
  | lockOwner (t : TxId) (owner : Uuid)
  | recover (t : TxId) (owner : Option Uuid) (now : Time)
  | readPrior (t : TxId) (call : Call)
  | readMember (t : TxId)
  | readCounts (t : TxId)
  | reserve (t : TxId) (found : Bool) (fresh : Fresh)
  | deleteConversations (t : TxId) (owner : Uuid) (conversation : Option Uuid)
  | deleteListingCopy (t : TxId) (ids : List Uuid)
  | commit (t : TxId)
  | abort (t : TxId)
  | markStarted (id : Uuid) (attempt now lease : Time)
  | refreshLease (id : Uuid) (attempt lease : Time)
  | refreshListingLease (id : Uuid) (attempt lease : Time)
  | persistResult (id conversation message : Uuid) (attempt now : Time) (complete : Bool)
  | settleAttempt (id : Uuid) (attempt : Time)
  | release (id : Uuid) (attempt : Time)
  | completeListing (id owner : Uuid) (attempt now : Time)
  | createConversation (id owner : Uuid)
  | setMember (owner : Uuid) (active : Bool)

section Steps
variable (s : State)

def markStarted (id : Uuid) (attempt now lease : Time) : Option State :=
  s.writeOutput
    (fun _ r => r.attemptStartedAt = attempt && (r.status = .reserved || r.status = .retrying))
    (fun r => { r with
      status := if r.status = .retrying then .retrying else .streaming
      firstOutputAt := some (r.firstOutputAt.getD now)
      leaseUntil := some lease }) id

def completeListing (id owner : Uuid) (attempt now : Time) : Option State :=
  s.writeOutput
    (fun _ r => r.ownerId = owner && r.attemptStartedAt = attempt && r.status = .reserved)
    (fun r => { r with status := .completed, firstOutputAt := some now, leaseUntil := none }) id

/-- `_persist_result`, which takes the lock of the owner itself. -/
def persistResult (id conversation message : Uuid) (attempt now : Time) (complete : Bool) :
    Option State :=
  match s.requests.find? id with
  | none => some s
  | some row =>
    if !State.ownerFree s.txs row.ownerId then none
    else if !s.conversations.contains (conversation, row.ownerId) then some s
    else
      s.write (fun k r => k = id && r.conversationId = some conversation &&
          r.assistantMessageId = some message && r.attemptStartedAt = attempt &&
          (r.status = .streaming || r.status = .retrying))
        fun r => { r with
          status := if complete then .completed else .partialResult
          leaseUntil := none
          firstOutputAt := some (r.firstOutputAt.getD now) }

/-- `_settle_attempt`, which takes the lock of the owner itself. -/
def settleAttempt (id : Uuid) (attempt : Time) : Option State :=
  match s.requests.find? id with
  | none => some s
  | some row =>
    if !State.ownerFree s.txs row.ownerId then none
    else
      s.write (fun k r => k = id && r.attemptStartedAt = attempt && r.status.isActive)
        AiRequest.recovered

/-- `owned_conversation`; a listing copy has none. -/
def ownsConversation (call : Call) : Bool :=
  call.conversation.all fun conversation => s.conversations.contains (conversation, call.owner)

def scrubs (owner : Uuid) (conversation : Option Uuid) (r : AiRequest) : Bool :=
  r.ownerId = owner && r.conversationId.any fun id =>
    match conversation with
    | some only => id = only
    | none => s.conversations.contains (id, owner)

/-- `ensure_no_active_requests` and `scrub_conversation_ledger`, before the deletion. -/
def deleteConversations (tx : Tx) (owner : Uuid) (conversation : Option Uuid) : Option State :=
  let active (_ : Uuid) (r : AiRequest) : Bool :=
    r.ownerId = owner && r.status.isActive &&
      conversation.all fun id => r.conversationId = some id
  if !tx.owners.contains owner || (tx.view s.requests).rows.any fun row => active row.1 row.2 then
    none
  else
    s.statement
      { tx with deleted := tx.deleted ++ (s.conversations.filter fun c =>
          c.2 = owner && conversation.all fun id => c.1 = id).map Prod.fst }
      (fun _ r => scrubs s owner conversation r) AiRequest.scrubbed

def step (cfg : Settings) (s : State) : Action → Option State
  | .begin t =>
    if (s.tx? t).isSome then none
    else some (s.set ⟨t, [], fun _ => false, fun _ r => r, [], none⟩)
  | .lockOwner t owner => do
    let tx ← s.tx? t
    if State.ownerFree (s.others t) owner then some (s.set { tx with owners := owner :: tx.owners })
    else none
  | .recover t owner now => do
    let tx ← s.tx? t
    s.statement tx (fun _ r => owner.all (r.ownerId = ·) && r.recoverable now) AiRequest.recovered
  | .readPrior t call => do
    let tx ← s.tx? t
    if tx.owners.contains call.owner && ownsConversation s call then
      some (s.set { tx with reading := some ⟨call, priorOf (tx.view s.requests) call, none, none⟩ })
    else none
  | .readMember t => do
    let tx ← s.tx? t
    let reading ← tx.reading
    some (s.set { tx with
      reading := some { reading with member := some (s.members.contains reading.call.owner) } })
  | .readCounts t => do
    let tx ← s.tx? t
    let reading ← tx.reading
    let view := tx.view s.requests
    some (s.set { tx with
      reading := some { reading with
        counts := some (activeCount view reading.call.owner, trialUsed view reading.call.owner) } })
  | .reserve t found fresh => do
    let tx ← s.tx? t
    let reading ← tx.reading
    let member ← reading.member
    let (active, used) ← reading.counts
    s.finishReserve tx reading.call fresh
      (reading.call.outcome cfg found reading.prior member active used)
  | .deleteConversations t owner conversation => do
    let tx ← s.tx? t
    deleteConversations s tx owner conversation
  | .deleteListingCopy t ids => do
    let tx ← s.tx? t
    s.statement tx (fun k _ => ids.contains k) AiRequest.stripped
  | .commit t => do
    let tx ← s.tx? t
    some (s.commit tx)
  | .abort t => do
    let tx ← s.tx? t
    some (s.abort tx)
  | .markStarted id attempt now lease => markStarted s id attempt now lease
  | .refreshLease id attempt lease =>
    s.write (fun k r => k = id && r.attemptStartedAt = attempt &&
        (r.status = .reserved || r.status = .retrying))
      fun r => { r with leaseUntil := some lease }
  | .refreshListingLease id attempt lease =>
    s.write (fun k r => k = id && r.attemptStartedAt = attempt && r.status = .reserved)
      fun r => { r with leaseUntil := some lease }
  | .persistResult id conversation message attempt now complete =>
    persistResult s id conversation message attempt now complete
  | .settleAttempt id attempt => settleAttempt s id attempt
  | .release id attempt =>
    s.write (fun k r => k = id && r.attemptStartedAt = attempt && r.status = .reserved)
      fun r => { r with status := .released, leaseUntil := none }
  | .completeListing id owner attempt now => completeListing s id owner attempt now
  | .createConversation id owner =>
    some { s with conversations := (id, owner) :: s.conversations }
  | .setMember owner active =>
    some { s with
      members := if active then owner :: s.members else s.members.filter (· ≠ owner) }

end Steps

def IsInitial (s : State) : Prop := ∃ members, s = ⟨Table.empty, [], members, [], []⟩

end FractalStudio.Ai
