import FractalStudio.Ai.Ledger
import FractalStudio.Lib.Slots

/-!
# Streaming attempts

`stream_message` in any number of workers, with the messages that it stores and announces. Each
transaction is one step: reservation, persistence and settlement hold the owner's advisory lock and
the row of the request, the others are one statement. A transaction takes `now()` at its start, so
its time may lie behind the clock. Times are in microseconds.
-/
namespace FractalStudio.Ai.Streams

open Platform (Uuid)
open Transition

abbrev WorkerId := Nat

def second : Time := 1000000

def requestLease : Time := 180 * second

/-- The read timeout of the provider's client. -/
def readTimeout : Time := 90 * second

structure Suggestion where
  reason : String
  body : String
  deriving DecidableEq

/-- What an attempt has put out so far. -/
structure Output where
  text : String
  suggestion : Option Suggestion
  deriving DecidableEq

/-- `persisted_content` -/
def Output.content (o : Output) : String :=
  if o.text = "" then (o.suggestion.map Suggestion.reason).getD "" else o.text

inductive Role
  | user | assistant
  deriving DecidableEq

/-- A row of `ai_messages`. -/
structure Message where
  conversationId : Uuid
  role : Role
  content : String
  suggestion : Option Suggestion
  deriving DecidableEq

inductive Stage
  /-- Before `_refresh_lease`. -/
  | refreshing
  /-- Inside `stream_completion`. -/
  | calling
  /-- First output has arrived; before `_mark_started`. -/
  | starting (text : String) (suggestion : Option Suggestion)
  /-- The stream has ended; before the answer is persisted. -/
  | finished
  /-- In the exception handler, with partial output to persist or an attempt to settle. -/
  | failed (disconnected : Bool)
  | unsettled (disconnected : Bool)
  /-- Before the `done` event with this identifier. -/
  | announcing (messageId : Uuid)
  | ended
  deriving DecidableEq

/-- The attempt is in progress: it has neither failed nor written its result. -/
def Stage.live : Stage → Bool
  | .refreshing | .calling | .starting _ _ | .finished => true
  | _ => false

structure Worker where
  owner : Uuid
  conversation : Uuid
  request : Uuid
  assistantMessage : Uuid
  attempt : Time
  output : Output
  started : Bool
  /-- The retry of the provider call, 0 or 1. -/
  round : Nat
  /-- When the wait for the provider began. -/
  since : Time
  /-- The time of the transaction that renewed the lease last; no transition reads it. -/
  renewed : Time
  stage : Stage
  deriving DecidableEq

structure State where
  now : Time
  requests : Table Uuid AiRequest
  conversations : Table Uuid Uuid
  messages : Table Uuid Message
  workers : Table WorkerId Worker
  /-- The output of the attempt that completed each request. -/
  results : Table Uuid Output

/-- How a transaction ends for the worker: it is told so, it is rolled back with an error, or it
commits and the worker sees an error. -/
inductive Commit
  | works | rolledBack | lost
  deriving DecidableEq

inductive Action
  | tick (elapsed : Time)
  | createConversation (owner id : Uuid)
  /-- `reserve_request` of a new worker. -/
  | reserve (w : WorkerId) (call : Call) (fresh : Fresh) (member : Bool) (began : Time)
  /-- A listing copy takes a reservation, or ends. -/
  | reserveCopy (call : Call) (fresh : Fresh) (member : Bool) (began : Time)
  | endCopy (id : Uuid) (status : RequestStatus)
  | refresh (w : WorkerId) (began : Time)
  /-- A chunk without output to show, a pause between two phases included. -/
  | quiet (w : WorkerId) (nextPhase : Bool)
  /-- A delta or a suggestion. -/
  | output (w : WorkerId) (text : String) (suggestion : Option Suggestion)
  | markStarted (w : WorkerId) (began : Time)
  | finish (w : WorkerId)
  /-- The provider fails, a read timeout included. -/
  | providerFails (w : WorkerId) (retryable : Bool)
  /-- Any other exception, a cancellation included. -/
  | interrupt (w : WorkerId) (disconnected : Bool)
  | persist (w : WorkerId) (commit : Commit)
  | persistPartial (w : WorkerId) (commit : Commit)
  | settle (w : WorkerId) (commit : Commit)
  | announce (w : WorkerId)
  /-- The process of the worker ends. -/
  | die (w : WorkerId)
  /-- `recover_expired_requests` of the maintenance, or of one owner. -/
  | recover (owner : Option Uuid) (began : Time)
  /-- One conversation of the owner is deleted, or all of them. -/
  | deleteConversations (owner : Uuid) (id : Option Uuid) (began : Time)

section Model
variable (cfg : Settings)

def State.put (s : State) (w : WorkerId) (wk : Worker) : State :=
  { s with workers := s.workers.put w wk }

def Worker.to (wk : Worker) (stage : Stage) : Worker := { wk with stage := stage }

/-- Which rows `recover_expired_requests` releases. -/
def abandoned (owner : Option Uuid) (began : Time) (r : AiRequest) : Bool :=
  (owner.all fun o => r.ownerId = o) && r.recoverable began

def recoverExpired (requests : Table Uuid AiRequest) (owner : Option Uuid) (began : Time) :
    Table Uuid AiRequest :=
  requests.updateWhere (fun _ r => abandoned owner began r) fun _ r => r.recovered

/-! ## Reservation -/

/-- `uuid4` and the clock give values that are not in use. -/
def State.unused (s : State) (fresh : Fresh) : Bool :=
  (s.messages.find? fresh.userMessage).isNone && (s.messages.find? fresh.assistantMessage).isNone &&
  fresh.userMessage ≠ fresh.assistantMessage &&
  !(s.requests.any fun _ r => r.assistantMessageId = some fresh.assistantMessage ||
    r.assistantMessageId = some fresh.userMessage) &&
  !(s.workers.any fun _ wk => wk.attempt = fresh.attempt)

def newWorker (call : Call) (conversation request assistantMessage : Uuid) (fresh : Fresh)
    (stage : Stage) : Worker where
  owner := call.owner
  conversation := conversation
  request := request
  assistantMessage := assistantMessage
  attempt := fresh.attempt
  output := ⟨"", none⟩
  started := false
  round := 0
  since := fresh.attempt
  renewed := fresh.attempt
  stage := stage

/-- The answer of the row is stored. -/
def State.stored (s : State) (prior : Option (Uuid × AiRequest)) : Bool :=
  prior.any fun p => p.2.assistantMessageId.any fun mid => (s.messages.find? mid).isSome

/-- The decision on a request of a conversation, taken after the recovery. -/
def State.outcome (s : State) (call : Call) (member : Bool) : Outcome :=
  let prior := priorOf s.requests call
  call.outcome cfg (s.stored prior) prior member (activeCount s.requests call.owner)
    (trialUsed s.requests call.owner)

def reserveOutcome (s : State) (w : WorkerId) (call : Call) (conversation : Uuid) (fresh : Fresh) :
    Outcome → Option State
  | .refused _ => none
  | .replayed =>
    (priorOf s.requests call).bind fun p =>
      p.2.assistantMessageId.map fun mid =>
        s.put w (newWorker call conversation p.1 mid fresh (.announcing mid))
  | .retried id =>
    (s.requests.find? id).bind fun r =>
      if r.status = .partialResult then
        let r' := call.retriedRow fresh r
        some ({ s with requests := s.requests.modify id fun _ => r' }.put w
          (newWorker call conversation id (r.assistantMessageId.getD fresh.assistantMessage) fresh
            .refreshing))
      else none
  | .reset id counts =>
    (s.requests.find? id).bind fun r =>
      if r.status = .released ∨ r.status = .failed then
        let r' := call.resetRow fresh counts r
        some ({ s with requests := s.requests.modify id fun _ => r' }.put w
          (newWorker call conversation id (r.assistantMessageId.getD fresh.assistantMessage) fresh
            .refreshing))
      else none
  | .inserted counts =>
    (s.messages.insert? fresh.userMessage ⟨conversation, .user, "", none⟩).bind fun messages =>
      (s.requests.insert? fresh.id (call.row fresh counts)).map fun requests =>
        { s with messages := messages, requests := requests }.put w
          (newWorker call conversation fresh.id fresh.assistantMessage fresh .refreshing)

def reserve (s : State) (w : WorkerId) (call : Call) (fresh : Fresh) (member : Bool) (began : Time) :
    Option State :=
  call.conversation.bind fun conversation =>
    let s := { s with requests := recoverExpired s.requests (some call.owner) began }
    if s.conversations.find? conversation = some call.owner ∧ (s.workers.find? w).isNone ∧
        s.unused fresh ∧ fresh.lease = fresh.attempt + requestLease then
      reserveOutcome s w call conversation fresh (s.outcome cfg call member)
    else none

def reserveCopy (s : State) (call : Call) (fresh : Fresh) (member : Bool) (began : Time) :
    Option State :=
  let s := { s with requests := recoverExpired s.requests (some call.owner) began }
  if call.conversation = none ∧ s.unused fresh then
    match s.outcome cfg call member with
    | .inserted counts =>
      (s.requests.insert? fresh.id (call.row fresh counts)).map fun requests =>
        { s with requests := requests }
    | _ => none
  else none

/-- A listing copy is completed, released or failed. -/
def endCopy (s : State) (id : Uuid) (status : RequestStatus) : Option State :=
  (s.requests.find? id).bind fun r =>
    if r.status.isActive ∧ r.conversationId = none ∧ ¬ status.isActive then
      some { s with requests := s.requests.modify id fun r =>
        { r with status := status, leaseUntil := none } }
    else none

/-! ## The attempt -/

/-- The row that an update of the attempt finds before any output of the attempt. -/
def Worker.waits (wk : Worker) (r : AiRequest) : Bool :=
  r.attemptStartedAt = wk.attempt && (r.status = .reserved || r.status = .retrying)

def refreshLease (s : State) (w : WorkerId) (wk : Worker) (began : Time) : State :=
  if (s.requests.find? wk.request).any wk.waits then
    { s with requests := s.requests.modify wk.request fun r =>
      { r with leaseUntil := some (began + requestLease) } }.put w
        { wk with stage := .calling, since := s.now, renewed := began }
  else s.put w (wk.to (.failed false))

def AiRequest.marked (r : AiRequest) (began : Time) : AiRequest :=
  { r with
    status := if r.status = .retrying then .retrying else .streaming
    firstOutputAt := some (r.firstOutputAt.getD began)
    leaseUntil := some (began + requestLease) }

def Output.append (o : Output) (text : String) (suggestion : Option Suggestion) : Output :=
  ⟨o.text ++ text, suggestion <|> o.suggestion⟩

def markStarted (s : State) (w : WorkerId) (wk : Worker) (text : String)
    (suggestion : Option Suggestion) (began : Time) : State :=
  if (s.requests.find? wk.request).any wk.waits then
    { s with requests := s.requests.modify wk.request fun r => AiRequest.marked r began }.put w
      { wk with
        stage := .calling
        started := true
        renewed := began
        output := wk.output.append text suggestion }
  else s.put w (wk.to (.failed false))

def AiRequest.persisted (r : AiRequest) (status : RequestStatus) (now : Time) : AiRequest :=
  { r with
    status := status
    leaseUntil := none
    firstOutputAt := some (r.firstOutputAt.getD now) }

/-- The attempt owns the row that it is about to close. -/
def Worker.owns (wk : Worker) (r : AiRequest) : Bool :=
  r.conversationId = some wk.conversation && r.assistantMessageId = some wk.assistantMessage &&
  r.attemptStartedAt = wk.attempt && (r.status = .streaming || r.status = .retrying)

/-- The message can be written under the identifier: nothing is there, or an answer of the same
conversation. -/
def State.writable (s : State) (wk : Worker) : Bool :=
  (s.messages.find? wk.assistantMessage).all fun m =>
    m.conversationId = wk.conversation && m.role = .assistant

def Worker.message (wk : Worker) : Message :=
  ⟨wk.conversation, .assistant, wk.output.content, wk.output.suggestion⟩

def State.close (s : State) (wk : Worker) (status : RequestStatus) : State :=
  { s with
    messages := s.messages.put wk.assistantMessage wk.message
    requests := s.requests.modify wk.request fun r => AiRequest.persisted r status s.now
    results := if status = .completed then s.results.put wk.request wk.output else s.results }

/-- `_persist_result`: the new state and the identifier to announce; `none` when the attempt is
lost. -/
def persistResult (s : State) (wk : Worker) (status : RequestStatus) : Option (State × Uuid) :=
  (s.requests.find? wk.request).bind fun r =>
    if r.status = .completed then r.assistantMessageId.map fun mid => (s, mid)
    else if wk.owns r ∧ s.conversations.find? wk.conversation = some r.ownerId ∧
        s.writable wk then
      some (s.close wk status, wk.assistantMessage)
    else none

/-- `_settle_attempt`: the new state, the status found or set, and the identifier. -/
def settleAttempt (s : State) (wk : Worker) : State × Option (RequestStatus × Option Uuid) :=
  match s.requests.find? wk.request with
  | none => (s, none)
  | some r =>
    if r.status.isActive ∧ r.attemptStartedAt = wk.attempt then
      let status := if r.firstOutputAt.isSome then .partialResult else .released
      ({ s with requests := s.requests.modify wk.request fun r =>
        { r with status := status, leaseUntil := none } }, some (status, r.assistantMessageId))
    else (s, some (r.status, r.assistantMessageId))

/-- The `done` event that ends the handler, if there is one. -/
def afterFailure (disconnected : Bool) : Option (RequestStatus × Option Uuid) → Stage
  | some (status, some mid) =>
    if !disconnected ∧ (status = .partialResult ∨ status = .completed) then .announcing mid
    else .ended
  | _ => .ended

def persistStep (s : State) (w : WorkerId) (wk : Worker) (status : RequestStatus)
    (onFailure : Stage) (onSuccess : Uuid → Stage) : Commit → State
  | .rolledBack => s.put w (wk.to onFailure)
  | .lost =>
    match persistResult s wk status with
    | some (s', _) => s'.put w (wk.to onFailure)
    | none => s.put w (wk.to onFailure)
  | .works =>
    match persistResult s wk status with
    | some (s', mid) => s'.put w (wk.to (onSuccess mid))
    | none => s.put w (wk.to onFailure)

def settleStep (s : State) (w : WorkerId) (wk : Worker) (disconnected : Bool) : Commit → State
  | .rolledBack => s.put w (wk.to .ended)
  | .lost => (settleAttempt s wk).1.put w (wk.to .ended)
  | .works =>
    let r := settleAttempt s wk
    r.1.put w (wk.to (afterFailure disconnected r.2))

def workerStep (s : State) (wk : Worker) : Action → Option State
  | .refresh w began =>
    if wk.stage = .refreshing ∧ began ≤ s.now then some (refreshLease s w wk began) else none
  | .quiet w nextPhase =>
    if wk.stage = .calling ∧ s.now ≤ wk.since + readTimeout then
      some (s.put w { wk with
        since := s.now
        stage := if nextPhase && !wk.started then .refreshing else .calling })
    else none
  | .output w text suggestion =>
    if wk.stage = .calling ∧ s.now ≤ wk.since + readTimeout then
      if wk.started then
        some (s.put w { wk with since := s.now, output := wk.output.append text suggestion })
      else some (s.put w { wk with since := s.now, stage := .starting text suggestion })
    else none
  | .markStarted w began =>
    match wk.stage with
    | .starting text suggestion =>
      if began ≤ s.now then some (markStarted s w wk text suggestion began) else none
    | _ => none
  | .finish w =>
    if wk.stage = .calling ∧ s.now ≤ wk.since + readTimeout then
      some (s.put w (wk.to (if wk.started then .finished else .failed false)))
    else none
  | .providerFails w retryable =>
    if wk.stage = .calling then
      if wk.started ∨ wk.round = 1 ∨ !retryable then some (s.put w (wk.to (.failed false)))
      else some (s.put w { wk with round := 1, stage := .refreshing })
    else none
  | .interrupt w disconnected =>
    if wk.stage.live then some (s.put w (wk.to (.failed disconnected))) else none
  | .persist w commit =>
    if wk.stage = .finished then
      some (persistStep s w wk .completed (.failed false) .announcing commit)
    else none
  | .persistPartial w commit =>
    match wk.stage with
    | .failed disconnected =>
      if wk.started then
        some (persistStep s w wk .partialResult (.unsettled disconnected)
          (fun mid => if disconnected then .ended else .announcing mid) commit)
      else none
    | _ => none
  | .settle w commit =>
    match wk.stage with
    | .failed disconnected =>
      if wk.started then none else some (settleStep s w wk disconnected commit)
    | .unsettled disconnected => some (settleStep s w wk disconnected commit)
    | _ => none
  | .announce w =>
    match wk.stage with
    | .announcing _ => some (s.put w (wk.to .ended))
    | _ => none
  | .die w => some { s with workers := s.workers.erase w }
  | _ => none

def Action.worker : Action → Option WorkerId
  | .refresh w _ => some w
  | .quiet w _ => some w
  | .output w _ _ => some w
  | .markStarted w _ => some w
  | .finish w => some w
  | .providerFails w _ => some w
  | .interrupt w _ => some w
  | .persist w _ => some w
  | .persistPartial w _ => some w
  | .settle w _ => some w
  | .announce w => some w
  | .die w => some w
  | _ => none

/-- The conversations that a deletion removes. -/
def doomed (owner : Uuid) (id : Option Uuid) (c : Uuid) (o : Uuid) : Bool :=
  o = owner && id.all fun i => i = c

def deleteConversations (s : State) (owner : Uuid) (id : Option Uuid) (began : Time) : Option State :=
  let requests := recoverExpired s.requests (some owner) began
  let gone := fun c => (s.conversations.find? c).any (doomed owner id c)
  if requests.any fun _ r => r.ownerId = owner && r.status.isActive &&
      id.all fun i => r.conversationId = some i then none
  else
    some { s with
      requests := requests.updateWhere
        (fun _ r => r.ownerId = owner && r.conversationId.any gone) fun _ r => r.scrubbed
      conversations := s.conversations.restrict fun c o => !doomed owner id c o
      messages := s.messages.restrict fun _ m => !gone m.conversationId }

def step (s : State) (a : Action) : Option State :=
  match a.worker with
  | some w => (s.workers.find? w).bind fun wk => workerStep s wk a
  | none =>
    match a with
    | .tick elapsed => some { s with now := s.now + elapsed }
    | .createConversation owner id =>
      (s.conversations.insert? id owner).map fun conversations =>
        { s with conversations := conversations }
    | .reserve w call fresh member began =>
      if began ≤ s.now then reserve cfg s w call fresh member began else none
    | .reserveCopy call fresh member began =>
      if began ≤ s.now then reserveCopy cfg s call fresh member began else none
    | .endCopy id status => endCopy s id status
    | .recover owner began =>
      if began ≤ s.now then some { s with requests := recoverExpired s.requests owner began } else none
    | .deleteConversations owner id began =>
      if began ≤ s.now then deleteConversations s owner id began else none
    | _ => none

end Model

def IsInitial (s : State) : Prop :=
  s.requests = Table.empty ∧ s.conversations = Table.empty ∧ s.messages = Table.empty ∧
    s.workers = Table.empty ∧ s.results = Table.empty

end FractalStudio.Ai.Streams
