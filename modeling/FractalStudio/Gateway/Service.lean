import FractalStudio.Gateway.Artifacts
import FractalStudio.Lib.Transition
import Mathlib.Data.List.Sort
import Mathlib.Logic.Function.Basic

/-!
# The Gateway service as interleaved calls

A call advances one database transaction or one upstream answer at a time, so any interleaving of
calls is a run of `step`. Only the reservation can be seen half done: it locks a node row, counts,
then inserts and commits, and each of these is a step of its own. Every other transaction locks what
it writes and commits in one step.

The reservation re-reads a candidate `FOR UPDATE` into an object that keeps the attributes of its
first read, so the checks after the lock use the snapshot; the counts are fresh.
-/
namespace FractalStudio.Gateway

abbrev CallId := Nat

/-- What `_reserve_or_replay` carries through its transaction. -/
structure Reservation where
  envelope : Json
  kind : String
  idempotencyKey : String
  requestHash : String
  candidates : List (Uuid × ComputeNode)

def Reservation.resources (t : Reservation) : List Resource :=
  requestedResources ((t.envelope.get? "payload").getD (.obj []))

/-- What happens after a submission or a poll: answer the caller, or go on with the
routes `reconcile_active_runs` has read. -/
inductive Cont where
  | reply
  | reconcile (rest : List (Uuid × Option String))

/-- What happens after a probe: answer the caller, or go on with `probe_all`. -/
inductive ProbeCont where
  | reply
  | probeAll (rest : List String)

/-- How a call ended. `crashed` is any exception that is not a `GatewayError`. -/
inductive Outcome where
  | returned (run : Option Uuid) (body : Json)
  | raised (error : GatewayError)
  | crashed

inductive Call where
  | createRun (envelope : Json)
  | reserving (t : Reservation)
  | counting (t : Reservation) (node : Uuid) (snapshot : ComputeNode)
  | inserting (t : Reservation) (node : Uuid)
  | submitting (run : Uuid) (k : Cont)
  | creating (run : Uuid) (node : Uuid) (k : Cont)
  | getRun (run : Uuid)
  | polling (run : Uuid) (k : Cont)
  | refreshing (run : Uuid) (data : Json)
  | cancelRun (run : Uuid)
  | cancelling (run : Uuid)
  | manifest (run : Uuid)
  | fetchingManifest (run : Uuid) (nodeRunId : String)
  | storingManifest (run : Uuid) (added : List RunArtifact) (body : Json)
  | streamArtifact (externalArtifactId : String)
  | streaming (node : Uuid) (nodeArtifactId : String)
  | reconcileActiveRuns
  | reconciling (rest : List (Uuid × Option String))
  | probeNode (nodeKey : String) (activateOnSuccess : Bool) (k : ProbeCont)
  | probing (nodeKey : String) (activateOnSuccess : Bool) (k : ProbeCont)
  | probeAll
  | probingAll (rest : List String)
  | sweeping (started : DateTime)
  | upsertNode (nodeKey : String) (payload : NodeUpsertInput)
  | bootstrapNode (nodeKey : String) (payload : NodeUpsertInput)
  | bootstrapView (nodeKey : String) (created : Bool)
  | setNodeState (nodeKey : String) (state : NodeState)
  | done (outcome : Outcome)

/-- The calls a client, an operator or the probe loop can make. -/
def Call.isEntry : Call → Bool
  | .createRun _ | .getRun _ | .cancelRun _ | .manifest _ | .streamArtifact _
  | .reconcileActiveRuns | .probeAll | .upsertNode _ _ | .bootstrapNode _ _ | .setNodeState _ _ => true
  | _ => false

/-- The committed tables, the clock, the calls, the node row locks that open
reservations hold, and the upstream creates sent so far as (run, node). -/
structure State where
  db : Db
  now : DateTime
  calls : CallId → Option Call
  locks : Uuid → Option CallId
  creates : List (Uuid × Uuid)

def State.put (s : State) (c : CallId) (call : Call) : State :=
  { s with calls := Function.update s.calls c (some call) }

/-- End the transaction of a call: its row locks are free. -/
def State.release (s : State) (c : CallId) : State :=
  { s with locks := fun n => if s.locks n = some c then none else s.locks n }

def State.lock (s : State) (c : CallId) (node : Uuid) : State :=
  { s with locks := Function.update s.locks node (some c) }

def State.setRuns (s : State) (runs : Table Uuid ComputeRun) : State :=
  { s with db := { s.db with runs } }

def State.setNodes (s : State) (nodes : Table Uuid ComputeNode) : State :=
  { s with db := { s.db with nodes } }

def State.finish (s : State) (c : CallId) (o : Outcome) : State := (s.put c (.done o)).release c

/-- Go on after a submission or a poll that ended with `o`. A reconciliation goes on
after a `GatewayError`; any other exception ends it. -/
def State.resume (s : State) (c : CallId) (k : Cont) (o : Outcome) : State :=
  match k, o with
  | .reply, o => s.finish c o
  | .reconcile _, .crashed => s.finish c .crashed
  | .reconcile rest, _ => s.put c (.reconciling rest)

/-! ## Reads -/

def runOfKey (db : Db) (key : String) : Option (Uuid × ComputeRun) :=
  (db.runs.select fun _ run => run.idempotencyKey = key).head?

def nodeOfKey (db : Db) (key : String) : Option (Uuid × ComputeNode) :=
  (db.nodes.select fun _ node => node.nodeKey = key).head?

/-- `_load_route`: the run, when its node row exists. -/
def loadRoute (db : Db) (run : Uuid) : Option ComputeRun :=
  (db.runs.find? run).filter fun r => (db.nodes.find? r.nodeId).isSome

def runEnvelope (run : Uuid) (row : ComputeRun) (data : Option Json) : Json :=
  let status := match row.state with
    | .allocating | .queued => "queued"
    | .running => "running"
    | .completed => "completed"
    | .failed => "failed"
    | .cancelled => "cancelled"
    | .nodeLost => "node_lost"
  let base := ((data.filter Json.truthy).orElse fun _ => row.lastStatusJson.filter Json.truthy).getD
    (.obj [])
  let named := base.set "computeRunId" (.str (uuidText run))
  let stated := named.set "status" ((named.get? "status").getD (.str status))
  let progress := (stated.get? "progress").getD (.obj [("percent", .int 0)])
  .obj [("schemaVersion", .int 1),
    ("data", (stated.set "progress" progress).set "artifacts" (.arr []))]

def score (used limit : Resource → Nat) (resources : List Resource) : ℚ :=
  resources.foldr (fun r m => max ((used r : ℚ) / limit r) m) 0

/-- The order of the sort key `(score, last_assigned_at or datetime.min, node_key)`. -/
def candidateLe (a b : ℚ × Uuid × ComputeNode) : Prop :=
  let stamp (n : ComputeNode) : Nat := n.lastAssignedAt.elim 0 (· + 1)
  a.1 < b.1 ∨ a.1 = b.1 ∧ (stamp a.2.2 < stamp b.2.2 ∨
    stamp a.2.2 = stamp b.2.2 ∧ ¬ b.2.2.nodeKey < a.2.2.nodeKey)

instance : DecidableRel candidateLe := fun a b => by unfold candidateLe; infer_instance

/-- The active, healthy, compatible nodes with a free slot in every requested
resource, in the order in which the reservation tries them. -/
def candidates (cfg : Settings) (s : State) (kind : String) (payload : Json) :
    List (Uuid × ComputeNode) :=
  let resources := requestedResources payload
  let nodes := (s.db.nodes.select fun _ n => n.state = .active).filter fun n =>
    healthy cfg s.now n.2 && nodeSupports n.2 kind payload true &&
      resources.all fun r => activeResourceCounts s.db n.1 r < n.2.limit r
  ((nodes.map fun n => (score (activeResourceCounts s.db n.1) n.2.limit resources, n)).insertionSort
    candidateLe).map Prod.snd

/-! ## Errors -/

def notFound : GatewayError := ⟨404, "COMPUTE_RUN_NOT_FOUND", "Compute run not found"⟩
def nodeNotFound : GatewayError := ⟨404, "COMPUTE_NODE_NOT_FOUND", "Compute node not found"⟩
def exhausted : GatewayError :=
  ⟨503, "COMPUTE_CAPACITY_EXHAUSTED", "no healthy compatible Compute node has capacity"⟩
def idempotencyConflict : GatewayError :=
  ⟨409, "IDEMPOTENCY_CONFLICT", "idempotencyKey was reused with a different Compute request"⟩
def nodeLostError : GatewayError :=
  ⟨502, "COMPUTE_NODE_LOST", "assigned Compute node is permanently unavailable"⟩
def notCompleted : GatewayError := ⟨409, "COMPUTE_INVALID_STATE", "Compute run is not completed"⟩

def routeError (error : UpstreamError) : GatewayError :=
  if error.code = .runNotFound then
    ⟨502, "COMPUTE_NODE_LOST", "assigned Compute node lost its run"⟩
  else unavailableError error

/-! ## Writes to one run row -/

/-- The rejection branch of `_submit_allocating`. -/
def ComputeRun.reject (now : DateTime) (run : ComputeRun) : ComputeRun :=
  { run with state := .failed, terminalAt := some now }

/-- The write of `_handle_route_error`, and of `probe_all` for a run of a stale node. -/
def ComputeRun.lose (now : DateTime) (run : ComputeRun) : ComputeRun :=
  { run with state := .nodeLost, terminalAt := some now }

/-- The success branch of `_submit_allocating`; it leaves `terminal_at` alone. -/
def ComputeRun.storeCreated (nodeRunId : String) (data : Json) (run : ComputeRun) : ComputeRun :=
  { run with
    nodeRunId := some nodeRunId
    lastStatusJson := some data
    state := stateFromStatus (data.get? "status") }

def ComputeRun.saveStatus (now : DateTime) (data : Json) (run : ComputeRun) : ComputeRun :=
  let state := stateFromStatus (data.get? "status")
  { run with
    lastStatusJson := some data
    state
    terminalAt := if state.isTerminal && run.terminalAt.isNone then some now else run.terminalAt }

/-- `_handle_route_error`: only an unknown run is written to. -/
def handleRouteError (s : State) (run : Uuid) (error : UpstreamError) : State :=
  if error.code = .runNotFound then s.setRuns (s.db.runs.modify run (.lose s.now)) else s

/-! ## `create_run` and `_reserve_or_replay` -/

def createRun (cfg : Settings) (s : State) (c : CallId) (envelope : Json) : State :=
  match requireEnvelope envelope true with
  | .error e => s.finish c (.raised e)
  | .ok (_, none) => s.finish c (.raised (unprocessable "invalid Compute envelope"))
  | .ok (kind, some key) =>
    match runOfKey s.db key with
    | some (run, row) =>
      if row.requestSha256 ≠ cfg.requestHash envelope then
        s.finish c (.raised idempotencyConflict)
      else if row.nodeRunId = none then s.put c (.submitting run .reply)
      else s.finish c (.returned run (runEnvelope run row none))
    | none =>
      match candidates cfg s kind ((envelope.get? "payload").getD (.obj [])) with
      | [] => s.finish c (.raised exhausted)
      | nodes => s.put c (.reserving ⟨envelope, kind, key, cfg.requestHash envelope, nodes⟩)

/-- Try the next candidate: skip a row another transaction has locked, lock a free one and check its
snapshot again. -/
def tryCandidate (cfg : Settings) (s : State) (c : CallId) (t : Reservation) : State :=
  match t.candidates with
  | [] => s.finish c (.raised exhausted)
  | (node, snapshot) :: rest =>
    let t := { t with candidates := rest }
    if s.locks node ≠ none ∧ s.locks node ≠ some c ∨ s.db.nodes.find? node = none then
      s.put c (.reserving t)
    else if healthy cfg s.now snapshot &&
        nodeSupports snapshot t.kind ((t.envelope.get? "payload").getD (.obj [])) true then
      (s.lock c node).put c (.counting t node snapshot)
    else (s.lock c node).put c (.reserving t)

/-- Count the node's active runs again, under its lock. -/
def countSlots (s : State) (c : CallId) (t : Reservation) (node : Uuid) (snapshot : ComputeNode) :
    State :=
  if t.resources.any fun r => snapshot.limit r ≤ activeResourceCounts s.db node r then
    s.put c (.reserving t)
  else s.put c (.inserting t node)

def Reservation.newRun (t : Reservation) (node : Uuid) : ComputeRun where
  idempotencyKey := t.idempotencyKey
  requestSha256 := t.requestHash
  nodeId := node
  nodeRunId := none
  kind := t.kind
  state := .allocating
  requestJson := t.envelope
  lastStatusJson := none
  terminalAt := none

def ComputeNode.assigned (now : DateTime) (node : ComputeNode) : ComputeNode :=
  { node with lastAssignedAt := some now }

/-- Insert the run and commit. The unique idempotency key may be taken by now. -/
def insertRun (s : State) (c : CallId) (t : Reservation) (node run : Uuid) : Option State :=
  match runOfKey s.db t.idempotencyKey with
  | some _ => some (s.finish c .crashed)
  | none =>
    (s.db.runs.insert? run (t.newRun node)).map fun runs =>
      (((s.setNodes (s.db.nodes.modify node (.assigned s.now))).setRuns runs).put c
        (.submitting run .reply)).release c

/-! ## `_submit_allocating` -/

def submitAllocating (s : State) (c : CallId) (run : Uuid) (k : Cont) : State :=
  match loadRoute s.db run with
  | none => s.resume c k (.raised notFound)
  | some row =>
    if row.nodeRunId.any (· ≠ "") then s.resume c k (.returned run (runEnvelope run row none))
    else { s.put c (.creating run row.nodeId k) with creates := s.creates ++ [(run, row.nodeId)] }

/-- The name of the run at its node, in a create answer. -/
def createdRunId (data : Json) : Option String :=
  ((data.get? "computeRunId").bind Json.str?).filter (· ≠ "")

/-- The database refuses the pair for this run: the id is longer than its column, or
`uq_compute_runs_node_run` has it for another run. -/
def nodeRunRefused (db : Db) (run node : Uuid) (nodeRunId : String) : Bool :=
  256 < nodeRunId.length || !(db.runs.select fun j r => j ≠ run && r.nodeId = node && r.nodeRunId = some nodeRunId).isEmpty

def storeCreated (s : State) (c : CallId) (run : Uuid) (k : Cont) (data : Json) : State :=
  match createdRunId data with
  | none => s.resume c k
      (.raised (invalidResponse "Compute create response has no run ID"))
  | some nodeRunId =>
    match s.db.runs.find? run with
    | none => s.resume c k .crashed
    | some row =>
      if row.nodeRunId = none then
        if nodeRunRefused s.db run row.nodeId nodeRunId then s.resume c k .crashed
        else (s.setRuns (s.db.runs.modify run (.storeCreated nodeRunId data))).resume c k
          (.returned run (runEnvelope run (row.storeCreated nodeRunId data) none))
      else s.resume c k (.returned run (runEnvelope run row none))

/-- The upstream create answered, and the write that follows committed. -/
def createAnswered (s : State) (c : CallId) (run : Uuid) (k : Cont) (answer : UpstreamResult) :
    State :=
  match answer with
  | .error e =>
    let s' := if e.code = .rejected then s.setRuns (s.db.runs.modify run (.reject s.now))
      else handleRouteError s run e
    s'.resume c k (.raised (routeError e))
  | .ok body =>
    match responseData body with
    | .error e => s.resume c k (.raised e)
    | .ok data => storeCreated s c run k data

/-! ## `get_run`, `cancel_run`, `manifest`, `stream_artifact` -/

def getRun (s : State) (c : CallId) (run : Uuid) : State :=
  match loadRoute s.db run with
  | none => s.finish c (.raised notFound)
  | some row =>
    if row.state = .nodeLost then s.finish c (.raised nodeLostError)
    else if row.nodeRunId = none then s.put c (.submitting run .reply)
    else s.put c (.polling run .reply)

/-- The upstream status answered, and the write that follows committed. -/
def statusAnswered (s : State) (c : CallId) (run : Uuid) (k : Cont) (answer : UpstreamResult) :
    State :=
  match answer with
  | .error e => (handleRouteError s run e).resume c k (.raised (routeError e))
  | .ok body =>
    match responseData body with
    | .error e => s.finish c (.raised e)
    | .ok data =>
      let s' := s.setRuns (s.db.runs.modify run (.saveStatus s.now data))
      match k with
      | .reply => s'.put c (.refreshing run data)
      | .reconcile rest => s'.put c (.reconciling rest)

def refreshRun (s : State) (c : CallId) (run : Uuid) (data : Json) : State :=
  match loadRoute s.db run with
  | none => s.finish c (.raised notFound)
  | some row => s.finish c (.returned run (runEnvelope run row data))

def cancelRun (s : State) (c : CallId) (run : Uuid) : State :=
  match loadRoute s.db run with
  | none => s.finish c (.raised notFound)
  | some row =>
    if row.state = .nodeLost then s.finish c (.raised nodeLostError)
    else if row.nodeRunId = none then
      s.finish c (.raised ⟨503, "COMPUTE_NODE_UNAVAILABLE", "Compute run is still being submitted"⟩)
    else s.put c (.cancelling run)

def cancelAnswered (s : State) (c : CallId) (run : Uuid) (answer : UpstreamResult) : State :=
  match answer with
  | .error e => (handleRouteError s run e).finish c (.raised (routeError e))
  | .ok body =>
    match responseData body with
    | .error e => s.finish c (.raised e)
    | .ok data => s.finish c (.returned run (.obj [("schemaVersion", .int 1),
        ("data", data.set "computeRunId" (.str (uuidText run)))]))

def manifest (s : State) (c : CallId) (run : Uuid) : State :=
  match loadRoute s.db run with
  | none => s.finish c (.raised notFound)
  | some row =>
    if row.state = .nodeLost then s.finish c (.raised nodeLostError)
    else match row.nodeRunId.filter (· ≠ "") with
    | none => s.finish c (.raised notCompleted)
    | some nodeRunId => s.put c (.fetchingManifest run nodeRunId)

def manifestAnswered (s : State) (c : CallId) (run : Uuid) (nodeRunId : String)
    (answer : UpstreamResult) : State :=
  match answer with
  | .error e => (handleRouteError s run e).finish c (.raised (routeError e))
  | .ok body =>
    if (body.get? "status").bind Json.str? ≠ some "completed" then
      s.finish c (.raised notCompleted)
    else match body.list? "artifacts" with
    | none => s.finish c (.raised (invalidResponse "invalid Compute manifest"))
    | some items =>
      match persistManifest run nodeRunId s.db.artifacts [] items with
      | .error (.refused e) => s.finish c (.raised e)
      | .error .crashed => s.finish c .crashed
      | .ok (added, rewritten) => s.put c (.storingManifest run added
          ((body.set "computeRunId" (.str (uuidText run))).set "artifacts" (.arr rewritten)))

/-- The transaction of `_persist_manifest` commits, unless another one has recorded an
artifact under an identifier that this one did not find. -/
def storeManifest (s : State) (c : CallId) (run : Uuid) (added : List RunArtifact) (body : Json) :
    State :=
  if added.any fun a => s.db.artifacts.any fun b => b.externalArtifactId = a.externalArtifactId then
    s.finish c .crashed
  else ({ s with db := { s.db with artifacts := s.db.artifacts ++ added } }).finish c
    (.returned run body)

def artifactNotFound : GatewayError :=
  ⟨404, "COMPUTE_ARTIFACT_NOT_FOUND", "Compute artifact not found"⟩

def streamArtifact (s : State) (c : CallId) (externalArtifactId : String) : State :=
  match resolveArtifact s.db externalArtifactId with
  | none => s.finish c (.raised artifactNotFound)
  | some (node, nodeArtifactId) => s.put c (.streaming node nodeArtifactId)

/-- The node answered; the bytes it streams are not modelled. -/
def streamAnswered (s : State) (c : CallId) (answer : UpstreamResult) : State :=
  match answer with
  | .error e => s.finish c (.raised (unavailableError e))
  | .ok _ => s.finish c (.returned none .null)

/-! ## Reconciliation and probes -/

def reconcileActiveRuns (s : State) (c : CallId) : State :=
  s.put c (.reconciling
    ((s.db.runs.select fun _ r => r.state.isActive && (s.db.nodes.find? r.nodeId).isSome).map
      fun e => (e.1, e.2.nodeRunId)))

def reconcileNext (s : State) (c : CallId) : List (Uuid × Option String) → State
  | [] => s.finish c (.returned none .null)
  | (run, none) :: rest => s.put c (.submitting run (.reconcile rest))
  | (run, some _) :: rest => s.put c (.polling run (.reconcile rest))

def probeNode (s : State) (c : CallId) (nodeKey : String) (activateOnSuccess : Bool)
    (k : ProbeCont) : State :=
  match nodeOfKey s.db nodeKey with
  | none => s.finish c (.raised nodeNotFound)
  | some _ => s.put c (.probing nodeKey activateOnSuccess k)

def State.resumeProbe (s : State) (c : CallId) : ProbeCont → State
  | .reply => s.finish c (.returned none .null)
  | .probeAll rest => s.put c (.probingAll rest)

def ComputeNode.probed (now : DateTime) (capabilities : Json) (activateOnSuccess : Bool)
    (node : ComputeNode) : ComputeNode :=
  { node with
    lastHealthyAt := some now
    capabilitiesJson := some capabilities
    capabilitiesAt := some now
    state := if (activateOnSuccess || node.state = .offline) && node.state ≠ .draining then .active
      else node.state }

/-- The probe answered. Its write waits for the node row's lock. -/
def probeAnswered (s : State) (c : CallId) (nodeKey : String) (activateOnSuccess : Bool)
    (k : ProbeCont) (answer : UpstreamResult) : Option State :=
  match answer with
  | .error e =>
    some (if activateOnSuccess then s.finish c (.raised (unavailableError e)) else s.resumeProbe c k)
  | .ok capabilities =>
    match nodeOfKey s.db nodeKey with
    | none => some (s.finish c (.raised nodeNotFound))
    | some (node, _) =>
      if s.locks node = none then
        some ((s.setNodes (s.db.nodes.modify node
          (.probed s.now capabilities activateOnSuccess))).resumeProbe c k)
      else none

def probeAll (s : State) (c : CallId) : State :=
  s.put c (.probingAll
    ((s.db.nodes.select fun _ n => n.state ∈ [.active, .draining, .offline]).map
      fun e => e.2.nodeKey))

def probeNext (s : State) (c : CallId) : List String → State
  | [] => s.put c (.sweeping s.now)
  | key :: rest => s.put c (.probeNode key false (.probeAll rest))

/-- An active node whose last healthy probe is older than the cutoff. -/
def stale (cfg : Settings) (started : DateTime) (node : ComputeNode) : Bool :=
  node.state = .active && node.lastHealthyAt.all fun t => t + cfg.nodeOfflineAfter < started

def ComputeNode.withState (state : NodeState) (node : ComputeNode) : ComputeNode :=
  { node with state }

/-- The sweep of `probe_all`: stale nodes go offline and their active runs are lost. -/
def sweep (cfg : Settings) (s : State) (c : CallId) (started : DateTime) : Option State :=
  if (s.db.nodes.select fun n row => row.state = .active && (s.locks n).isSome).isEmpty then
    let staleNode (n : Uuid) : Bool := (s.db.nodes.find? n).any (stale cfg started)
    some (((s.setNodes (s.db.nodes.updateWhere (fun _ n => stale cfg started n)
        fun _ => .withState .offline)).setRuns
      (s.db.runs.updateWhere (fun _ r => staleNode r.nodeId && r.state.isActive)
        fun _ r => r.lose s.now)).put c .reconcileActiveRuns)
  else none

/-! ## Node administration -/

/-- The columns an upsert and a bootstrap overwrite. -/
def ComputeNode.configure (payload : NodeUpsertInput) (node : ComputeNode) : ComputeNode :=
  { node with
    baseUrl := payload.baseUrl
    maxDurableSlots := payload.maxDurableSlots
    maxPreviewSlots := payload.maxPreviewSlots
    maxCpuSlots := payload.maxCpuSlots
    maxGpuSlots := payload.maxGpuSlots
    maxCpuPreviewSlots := payload.maxCpuPreviewSlots
    maxGpuPreviewSlots := payload.maxGpuPreviewSlots }

def initialState (payload : NodeUpsertInput) : NodeState :=
  if payload.enabled then .offline else .disabled

def newNode (nodeKey : String) (payload : NodeUpsertInput) : ComputeNode where
  nodeKey
  baseUrl := payload.baseUrl
  state := initialState payload
  maxDurableSlots := payload.maxDurableSlots
  maxPreviewSlots := payload.maxPreviewSlots
  maxCpuSlots := payload.maxCpuSlots
  maxGpuSlots := payload.maxGpuSlots
  maxCpuPreviewSlots := payload.maxCpuPreviewSlots
  maxGpuPreviewSlots := payload.maxGpuPreviewSlots
  capabilitiesJson := none
  capabilitiesAt := none
  lastHealthyAt := none
  lastAssignedAt := none

def urlTaken (db : Db) (nodeKey baseUrl : String) : Bool :=
  !(db.nodes.select fun _ n => n.nodeKey ≠ nodeKey && n.baseUrl = baseUrl).isEmpty

/-- The transaction `upsert_node` and `bootstrap_node` share: configure the node of
the key under its row lock, or insert it. -/
def writeNode (s : State) (c : CallId) (nodeKey : String) (payload : NodeUpsertInput) (fresh : Uuid)
    (state : ComputeNode → NodeState) (next : Bool → Call) : Option State :=
  if urlTaken s.db nodeKey payload.baseUrl then some (s.finish c .crashed)
  else match nodeOfKey s.db nodeKey with
  | some (node, _) =>
    if s.locks node = none then
      some ((s.setNodes (s.db.nodes.modify node fun n =>
        (n.configure payload).withState (state n))).put c (next false))
    else none
  | none =>
    (s.db.nodes.insert? fresh (newNode nodeKey payload)).map fun nodes =>
      (s.setNodes nodes).put c (next true)

def upsertNode (s : State) (c : CallId) (nodeKey : String) (payload : NodeUpsertInput)
    (fresh : Uuid) : Option State :=
  if nodeKeyOk nodeKey then
    writeNode s c nodeKey payload fresh (fun _ => initialState payload) fun _ =>
      if payload.enabled then .probeNode nodeKey true .reply else .done (.returned none .null)
  else some (s.finish c (.raised (unprocessable "invalid node key")))

def bootstrapNode (s : State) (c : CallId) (nodeKey : String) (payload : NodeUpsertInput)
    (fresh : Uuid) : Option State :=
  if nodeKeyOk nodeKey then
    writeNode s c nodeKey payload fresh
      (fun n => if payload.enabled then n.state else .disabled) fun created =>
      if payload.enabled then .bootstrapView nodeKey created else .done (.returned none .null)
  else some (s.finish c (.raised (unprocessable "invalid node key")))

def bootstrapView (s : State) (c : CallId) (nodeKey : String) (created : Bool) : State :=
  match nodeOfKey s.db nodeKey with
  | none => s.finish c (.raised nodeNotFound)
  | some (_, node) =>
    if created || node.state = .offline then s.put c (.probeNode nodeKey false .reply)
    else s.finish c (.returned none .null)

/-- `offline` is no state an operator can set: a `ValueError`. -/
def setNodeState (s : State) (c : CallId) (nodeKey : String) (state : NodeState) : Option State :=
  if state = .offline then some (s.finish c .crashed)
  else if state = .active then some (s.put c (.probeNode nodeKey true .reply))
  else match nodeOfKey s.db nodeKey with
  | none => some (s.finish c (.raised nodeNotFound))
  | some (node, _) =>
    if s.locks node = none then
      some ((s.setNodes (s.db.nodes.modify node (.withState state))).finish c (.returned none .null))
    else none

/-- One step of a call, with the answer of the node and the identifier of `uuid4`, where it takes one. -/
def advance (cfg : Settings) (s : State) (c : CallId) (answer : UpstreamResult) (fresh : Uuid) :
    Call → Option State
  | .createRun envelope => some (createRun cfg s c envelope)
  | .reserving t => some (tryCandidate cfg s c t)
  | .counting t node snapshot => some (countSlots s c t node snapshot)
  | .inserting t node => insertRun s c t node fresh
  | .submitting run k => some (submitAllocating s c run k)
  | .creating run _ k => some (createAnswered s c run k answer)
  | .getRun run => some (getRun s c run)
  | .polling run k => some (statusAnswered s c run k answer)
  | .refreshing run data => some (refreshRun s c run data)
  | .cancelRun run => some (cancelRun s c run)
  | .cancelling run => some (cancelAnswered s c run answer)
  | .manifest run => some (manifest s c run)
  | .fetchingManifest run nodeRunId => some (manifestAnswered s c run nodeRunId answer)
  | .storingManifest run added body => some (storeManifest s c run added body)
  | .streamArtifact externalArtifactId => some (streamArtifact s c externalArtifactId)
  | .streaming _ _ => some (streamAnswered s c answer)
  | .reconcileActiveRuns => some (reconcileActiveRuns s c)
  | .reconciling rest => some (reconcileNext s c rest)
  | .probeNode nodeKey activate k => some (probeNode s c nodeKey activate k)
  | .probing nodeKey activate k => probeAnswered s c nodeKey activate k answer
  | .probeAll => some (probeAll s c)
  | .probingAll rest => some (probeNext s c rest)
  | .sweeping started => sweep cfg s c started
  | .upsertNode nodeKey payload => upsertNode s c nodeKey payload fresh
  | .bootstrapNode nodeKey payload => bootstrapNode s c nodeKey payload fresh
  | .bootstrapView nodeKey created => some (bootstrapView s c nodeKey created)
  | .setNodeState nodeKey state => setNodeState s c nodeKey state
  | .done _ => none

inductive Action where
  | tick (elapsed : Nat)
  | invoke (c : CallId) (call : Call)
  | advance (c : CallId) (answer : UpstreamResult) (fresh : Uuid)

def step (cfg : Settings) (s : State) : Action → Option State
  | .tick elapsed => some { s with now := s.now + elapsed }
  | .invoke c call =>
    if (s.calls c).isNone && call.isEntry then some (s.put c call) else none
  | .advance c answer fresh => (s.calls c).bind (advance cfg s c answer fresh)

/-- Empty tables and no call in progress. -/
def Init (s : State) : Prop :=
  s.db = ⟨.empty, .empty, []⟩ ∧ s.calls = (fun _ => none) ∧ s.locks = (fun _ => none) ∧
    s.creates = []

/-! ## Runs of one node with one slot -/

def emptyState : State := ⟨⟨.empty, .empty, []⟩, 0, fun _ => none, fun _ => none, []⟩

theorem init_emptyState : Init emptyState := ⟨rfl, rfl, rfl, rfl⟩

def minuteSettings : Settings := ⟨60, fun _ => ""⟩

def oneSlot : NodeUpsertInput := ⟨"http://node", 1, 1, 1, 1, 1, 1, true⟩

def cpuRequest (idempotencyKey : String) : Json :=
  .obj [("schemaVersion", .int 1), ("kind", .str "image"), ("idempotencyKey", .str idempotencyKey),
    ("payload", .obj [("engine", .str "cpu")])]

def imageCapabilities : Json :=
  .obj [("persistentKinds", .arr [.str "image"]), ("jobs", .arr [.obj [("kind", .str "image")]])]

def statusBody (nodeRunId status : String) : UpstreamResult :=
  .ok (.obj [("data", .obj [("computeRunId", .str nodeRunId), ("status", .str status)])])

def silent : UpstreamResult := .error ⟨.timeout, none⟩

/-- Configure node 1 by call 0, and probe it. -/
def openNode : List Action :=
  [.invoke 0 (.upsertNode "n1" oneSlot), .advance 0 silent 1, .advance 0 silent 0,
    .advance 0 (.ok imageCapabilities) 0]

def submitRun (c : CallId) (run : Uuid) (idempotencyKey : String) (answer : UpstreamResult) :
    List Action :=
  [.invoke c (.createRun (cpuRequest idempotencyKey)), .advance c silent 0, .advance c silent 0,
    .advance c silent 0, .advance c silent run, .advance c silent 0, .advance c answer 0]

/-- Start a poll of a run by call `c`, up to the point where the node answers. -/
def startPoll (c : CallId) (run : Uuid) : List Action :=
  [.invoke c (.getRun run), .advance c silent 0]

end FractalStudio.Gateway
