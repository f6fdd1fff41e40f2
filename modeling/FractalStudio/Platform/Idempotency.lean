import FractalStudio.Lib.Table
import FractalStudio.Lib.Transition

/-!
# Idempotency keys

`idempotency_service.py` and `idempotency_repository.py` for one `(user, scope, key)`, with the
transactions of the handlers around them. A claim, the work and the completion are statements of one
transaction: what it writes is seen when it commits, and its row or key is locked until it ends.
Every request reads its own clock before it claims; the clocks are arbitrary.

A generation of the record begins with an insert, or with a claim after its expiry time.
-/
namespace FractalStudio.Platform.Idempotency

abbrev Time := Nat

abbrev TxId := Nat

/-- The handlers behind a claim. -/
inductive Handler
  /-- It may return between claim and completion. -/
  | membershipCheckout
  /-- Something is looked up before the claim: `delete_conversation`, `update_conversation`,
  `checkout`, `create_draft`. -/
  | checksFirst (detail : String)
  /-- The deletions of listings and assets, which replay the status only. -/
  | bodiless
  | other
deriving DecidableEq

/-- A stored response; `none` is the null of a response without a body. -/
structure Response (Json : Type) where
  status : Nat
  body : Option Json
  headers : Json
deriving DecidableEq

/-- The settings, the key and its scope, the object `{}`, and `request_hash`, taken to be free of
collisions. -/
structure Config (Body Hash Json : Type) where
  emptyObject : Json
  key : String
  handler : Handler
  ttl : Nat
  lease : Nat
  requestHash : Body → Hash
  requestHash_injective : Function.Injective requestHash

/-- `status` with the columns that go with it: a processing row has a lease, a completed one a
response and no lease. -/
inductive RecordStatus (Json : Type)
  | processing (leaseUntil : Time)
  | completed (response : Response Json)
deriving DecidableEq

structure Record (Hash Json : Type) where
  requestHash : Hash
  status : RecordStatus Json
  expiresAt : Time
deriving DecidableEq

/-- Where a request stands. It holds the lock from `claimed` on, and while it answers from an
existing row. -/
inductive Phase (Hash Json : Type)
  | begun
  | conflicted
  | claimed (gen : Nat) (row : Record Hash Json)
  | working (gen : Nat) (row : Record Hash Json)
  | completed (gen : Nat) (row : Record Hash Json) (response : Response Json)
  | returning (gen : Nat) (row : Record Hash Json) (code : String)
  /-- Refused before the claim; with the generation of a record that it would have met. -/
  | dismissed (gen : Option Nat) (detail : String)
  | replaying (gen : Nat) (response : Response Json)
  | refused (gen : Option Nat) (detail : String)
  | finished
deriving DecidableEq

structure Tx (Body Hash Json : Type) where
  body : Body
  now : Time
  phase : Phase Hash Json
deriving DecidableEq

inductive Answer (Json : Type)
  | replay (response : Response Json)
  | refusal (detail : String)
deriving DecidableEq

inductive Event (Body Json : Type)
  | worked (gen : Nat) (body : Body) (response : Response Json)
  | answered (gen : Nat) (body : Body) (answer : Answer Json)
deriving DecidableEq

/-- The committed row with its generation, the lock on the key, the transactions, what
`membership_checkout` reads, and whether a lookup before the claim finds nothing. -/
structure State (Body Hash Json : Type) where
  record : Option (Nat × Record Hash Json)
  lockedBy : Option TxId
  txs : Table TxId (Tx Body Hash Json)
  generations : Nat
  member : Bool
  pendingOrder : Bool
  missing : Bool
  log : List (Event Body Json)

def initial {Body Hash Json : Type} (member pendingOrder missing : Bool) :
    State Body Hash Json := ⟨none, none, Table.empty, 0, member, pendingOrder, missing, []⟩

/-- Nothing is claimed yet. -/
def IsInitial {Body Hash Json : Type} (s : State Body Hash Json) : Prop :=
  ∃ member pendingOrder missing, s = initial member pendingOrder missing

inductive Action (Body Json : Type)
  | begin (t : TxId) (body : Body) (now : Time)
  | insertClaim (t : TxId)
  | lock (t : TxId)
  | check (t : TxId)
  | complete (t : TxId) (response : Response Json)
  | commit (t : TxId)
  | abort (t : TxId)
  | deleteExpired (now : Time)
  | world (member pendingOrder missing : Bool)
deriving DecidableEq

section Steps
variable {Body Hash Json : Type} [DecidableEq Hash]

def State.setPhase (s : State Body Hash Json) (t : TxId) (phase : Phase Hash Json) :
    State Body Hash Json :=
  { s with txs := s.txs.modify t fun tx => { tx with phase := phase } }

/-- The locks of a transaction that ends. -/
def State.release (s : State Body Hash Json) (t : TxId) : State Body Hash Json :=
  { s with lockedBy := if s.lockedBy = some t then none else s.lockedBy }

/-- The generation of a committed row that has not expired. -/
def State.liveGeneration (s : State Body Hash Json) (now : Time) : Option Nat :=
  (s.record.filter fun r => now < r.2.expiresAt).map Prod.fst

/-- A lookup before the claim raises when it finds nothing. -/
def beginPhase (cfg : Config Body Hash Json) (s : State Body Hash Json) (now : Time) :
    Phase Hash Json :=
  match cfg.handler with
  | .checksFirst detail => if s.missing then .dismissed (s.liveGeneration now) detail else .begun
  | _ => .begun

/-- The row that `insert_claim` and `reclaim` write. -/
def claimRow (cfg : Config Body Hash Json) (tx : Tx Body Hash Json) : Record Hash Json :=
  ⟨cfg.requestHash tx.body, .processing (tx.now + cfg.lease), tx.now + cfg.ttl⟩

def RecordStatus.leaseExpired (now : Time) : RecordStatus Json → Bool
  | .processing leaseUntil => leaseUntil ≤ now
  | .completed _ => false

/-- The rest of `claim` on the row it has locked; `fresh` is the next generation. -/
def claimExisting (cfg : Config Body Hash Json) (tx : Tx Body Hash Json) (fresh gen : Nat)
    (row : Record Hash Json) : Phase Hash Json :=
  if row.expiresAt ≤ tx.now then .claimed fresh (claimRow cfg tx)
  else if row.status.leaseExpired tx.now then .claimed gen (claimRow cfg tx)
  else if row.requestHash ≠ cfg.requestHash tx.body then
    .refused (some gen) "idempotency_conflict"
  else match row.status with
    | .completed response => .replaying gen response
    | .processing _ => .refused (some gen) "idempotency_in_progress"

/-- The insert waits while another transaction has inserted the key and not yet ended. -/
def insertStep (cfg : Config Body Hash Json) (s : State Body Hash Json) (t : TxId)
    (tx : Tx Body Hash Json) : Option (State Body Hash Json) :=
  if ¬ (1 ≤ cfg.key.length ∧ cfg.key.length ≤ 255) then
    some (s.setPhase t (.refused none "invalid_idempotency_key"))
  else match s.record, s.lockedBy with
    | some _, _ => some (s.setPhase t .conflicted)
    | none, some _ => none
    | none, none =>
      some { s.setPhase t (.claimed s.generations (claimRow cfg tx)) with
        lockedBy := some t, generations := s.generations + 1 }

/-- `SELECT … FOR UPDATE` and the decision on the row; without a row `.one()` raises. -/
def lockStep (cfg : Config Body Hash Json) (s : State Body Hash Json) (t : TxId)
    (tx : Tx Body Hash Json) : Option (State Body Hash Json) :=
  if s.lockedBy.isSome then none
  else match s.record with
    | none => some (s.setPhase t (.refused none "NoResultFound"))
    | some (gen, row) =>
      some { s.setPhase t (claimExisting cfg tx s.generations gen row) with
        lockedBy := some t, generations := s.generations + 1 }

/-- What a handler does before its work: `membership_checkout` may return. -/
def checkPhase (cfg : Config Body Hash Json) (s : State Body Hash Json) (gen : Nat)
    (row : Record Hash Json) : Phase Hash Json :=
  match cfg.handler with
  | .membershipCheckout =>
    if s.member then .returning gen row "already_member"
    else if s.pendingOrder then .returning gen row "payment_already_pending"
    else .working gen row
  | _ => .working gen row

/-- The answer from a stored response: `replay_body or {}`. -/
def replayAnswer (cfg : Config Body Hash Json) (response : Response Json) : Response Json :=
  match cfg.handler with
  | .bodiless => response
  | _ => { response with body := some (response.body.getD cfg.emptyObject) }

def commitStep (cfg : Config Body Hash Json) (s : State Body Hash Json) (t : TxId) (tx : Tx Body Hash Json) :
    Option (State Body Hash Json) :=
  match tx.phase with
  | .completed gen row response =>
    some { (s.setPhase t .finished).release t with
      record := some (gen, row), log := s.log ++ [.worked gen tx.body response] }
  | .returning gen row _ =>
    some { (s.setPhase t .finished).release t with record := some (gen, row) }
  | .replaying gen response =>
    some { (s.setPhase t .finished).release t with
      log := s.log ++ [.answered gen tx.body (.replay (replayAnswer cfg response))] }
  | _ => none

/-- A rollback, at any point; an exception of `claim`, or one before it, is the answer. -/
def abortStep (s : State Body Hash Json) (t : TxId) (tx : Tx Body Hash Json) :
    Option (State Body Hash Json) :=
  match tx.phase with
  | .finished => none
  | .refused (some gen) detail | .dismissed (some gen) detail =>
    some { (s.setPhase t .finished).release t with
      log := s.log ++ [.answered gen tx.body (.refusal detail)] }
  | _ => some ((s.setPhase t .finished).release t)

def step (cfg : Config Body Hash Json) (s : State Body Hash Json) :
    Action Body Json → Option (State Body Hash Json)
  | .begin t body now =>
    (s.txs.insert? t ⟨body, now, beginPhase cfg s now⟩).map fun txs => { s with txs := txs }
  | .insertClaim t => do
    let tx ← s.txs.find? t
    match tx.phase with
    | .begun => insertStep cfg s t tx
    | _ => none
  | .lock t => do
    let tx ← s.txs.find? t
    match tx.phase with
    | .conflicted => lockStep cfg s t tx
    | _ => none
  | .check t => do
    let tx ← s.txs.find? t
    match tx.phase with
    | .claimed gen row => some (s.setPhase t (checkPhase cfg s gen row))
    | _ => none
  | .complete t response => do
    let tx ← s.txs.find? t
    match tx.phase with
    | .working gen row =>
      some (s.setPhase t (.completed gen { row with status := .completed response } response))
    | _ => none
  | .commit t => do
    let tx ← s.txs.find? t
    commitStep cfg s t tx
  | .abort t => do
    let tx ← s.txs.find? t
    abortStep s t tx
  | .deleteExpired now =>
    match s.record with
    | some (_, row) =>
      if row.expiresAt ≤ now ∧ s.lockedBy = none then some { s with record := none } else none
    | none => none
  | .world member pendingOrder missing =>
    some { s with member := member, pendingOrder := pendingOrder, missing := missing }

/-- The committed work of a generation. -/
def Event.isWork (gen : Nat) : Event Body Json → Bool
  | .worked g _ _ => g = gen
  | .answered _ _ _ => false

def State.workCount (s : State Body Hash Json) (gen : Nat) : Nat :=
  s.log.countP (Event.isWork gen)

/-- Within a generation the work commits once at most and every other request is answered by it;
and a record that can be seen is completed. -/
structure AtMostOnce (s : State Body Hash Json) : Prop where
  completed : ∀ gen row, s.record = some (gen, row) → ∃ response, row.status = .completed response
  once : ∀ gen, s.workCount gen ≤ 1
  answers : ∀ gen body answer, .answered gen body answer ∈ s.log →
    ∃ first response, .worked gen first response ∈ s.log ∧
      (body = first → answer = .replay response) ∧
      (body ≠ first → answer = .refusal "idempotency_conflict")

/-- No request of `membership_checkout` returns with its claim: the user is no member and has no
pending membership order when it looks. No lookup before a claim fails while the key has a record
that has not expired. No response without a body is replayed with one. -/
def Straight (cfg : Config Body Hash Json) (s : State Body Hash Json) : Action Body Json → Prop
  | .begin _ _ now =>
    ∀ detail, cfg.handler = .checksFirst detail → s.missing = true → s.liveGeneration now = none
  | .check _ => cfg.handler = .membershipCheckout → s.member = false ∧ s.pendingOrder = false
  | .commit t => ∀ tx gen response, s.txs.find? t = some tx → tx.phase = .replaying gen response →
    cfg.handler = .bodiless ∨ response.body.isSome = true
  | _ => True

end Steps

end FractalStudio.Platform.Idempotency
