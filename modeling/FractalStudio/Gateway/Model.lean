import FractalStudio.Lib.Json
import FractalStudio.Lib.Table

/-!
# The Compute Gateway's tables and pure helpers

The rows of `compute_nodes`, `compute_runs` and `run_artifacts`, and the helpers of `services.py`
that read no database. UUIDs are natural numbers: the code only compares them. Instants are natural
numbers of one clock.
-/
namespace FractalStudio.Gateway

abbrev Uuid := Nat
abbrev DateTime := Nat

inductive Resource where
  | cpu
  | gpu
  deriving DecidableEq

inductive NodeState where
  | active
  | draining
  | offline
  | disabled
  deriving DecidableEq

inductive RunState where
  | allocating
  | queued
  | running
  | completed
  | failed
  | cancelled
  | nodeLost
  deriving DecidableEq

def RunState.isActive : RunState → Bool
  | .allocating | .queued | .running => true
  | _ => false

def RunState.isTerminal : RunState → Bool
  | .completed | .failed | .cancelled | .nodeLost => true
  | _ => false

structure ComputeNode where
  nodeKey : String
  baseUrl : String
  state : NodeState
  maxDurableSlots : Nat
  maxPreviewSlots : Nat
  maxCpuSlots : Nat
  maxGpuSlots : Nat
  maxCpuPreviewSlots : Nat
  maxGpuPreviewSlots : Nat
  capabilitiesJson : Option Json
  capabilitiesAt : Option DateTime
  lastHealthyAt : Option DateTime
  lastAssignedAt : Option DateTime

structure ComputeRun where
  idempotencyKey : String
  requestSha256 : String
  nodeId : Uuid
  nodeRunId : Option String
  kind : String
  state : RunState
  requestJson : Json
  lastStatusJson : Option Json
  terminalAt : Option DateTime

structure RunArtifact where
  gatewayRunId : Uuid
  externalArtifactId : String
  nodeArtifactId : String
  mediaType : String
  sizeBytes : Int
  sha256 : String
  deriving DecidableEq

structure Db where
  nodes : Table Uuid ComputeNode
  runs : Table Uuid ComputeRun
  artifacts : List RunArtifact

/-- `NodeUpsertInput` after its validators: the resource limits are filled in. -/
structure NodeUpsertInput where
  baseUrl : String
  maxDurableSlots : Nat
  maxPreviewSlots : Nat
  maxCpuSlots : Nat
  maxGpuSlots : Nat
  maxCpuPreviewSlots : Nat
  maxGpuPreviewSlots : Nat
  enabled : Bool

/-- `node_offline_after_seconds`, and SHA-256 of the canonical `{kind, payload}` text. -/
structure Settings where
  nodeOfflineAfter : Nat
  requestHash : Json → String

structure GatewayError where
  statusCode : Nat
  code : String
  message : String
  deriving DecidableEq

inductive UpstreamCode where
  | nodeUnavailable
  | timeout
  | invalidResponse
  | upstreamAuthFailed
  | runNotFound
  | conflict
  | rejected
  | unavailable
  deriving DecidableEq

structure UpstreamError where
  code : UpstreamCode
  statusCode : Option Nat

/-- The outcome of one call to a node: `UpstreamError`, or a JSON object body. -/
abbrev UpstreamResult := Except UpstreamError Json

/-! ## Resource footprints -/

def requestedResources (payload : Json) : List Resource :=
  match payload.get? "engine" with
  | some (.str engine) =>
    if engine ∈ ["cpu", "openmp", "avx2", "avx512"] then [.cpu]
    else if engine = "cuda" then [.gpu]
    else [.cpu, .gpu]
  | _ => [.cpu, .gpu]

/-- The resources `_accumulate_resource_counts` adds for one stored envelope. -/
def footprint (envelope : Json) : List Resource :=
  if envelope.isObj then
    let payload := (envelope.get? "payload").getD (.obj [])
    if payload.isObj then requestedResources payload else []
  else []

def ComputeRun.requires (run : ComputeRun) (r : Resource) : Bool := r ∈ footprint run.requestJson

def ComputeRun.holds (run : ComputeRun) (node : Uuid) (r : Resource) : Bool :=
  run.nodeId = node && run.state.isActive && run.requires r

def ComputeNode.limit (node : ComputeNode) : Resource → Nat
  | .cpu => node.maxCpuSlots
  | .gpu => node.maxGpuSlots

def activeResourceCounts (db : Db) (node : Uuid) (r : Resource) : Nat :=
  db.runs.sum fun _ run => if run.holds node r then 1 else 0

/-! ## Requests, nodes and answers -/

def unprocessable (message : String) : GatewayError := ⟨422, "COMPUTE_VALIDATION_ERROR", message⟩

/-- `_require_envelope`: the kind and the idempotency key of an accepted envelope. -/
def requireEnvelope (envelope : Json) (durable : Bool) :
    Except GatewayError (String × Option String) :=
  if !((envelope.get? "schemaVersion").any fun v => v.equalsInt 1) then
    .error (unprocessable "schemaVersion must equal 1")
  else match (envelope.get? "kind").bind Json.str? with
  | some kind =>
    if !(1 ≤ kind.length && kind.length ≤ 64 && (envelope.get? "payload").any Json.isObj) then
      .error (unprocessable "invalid Compute envelope")
    else match (envelope.get? "idempotencyKey").bind Json.str? with
    | some key =>
      if durable && !(1 ≤ key.length && key.length ≤ 200) then
        .error (unprocessable "idempotencyKey must contain 1..200 characters")
      else .ok (kind, some key)
    | none =>
      if durable then .error (unprocessable "idempotencyKey must contain 1..200 characters")
      else .ok (kind, none)
  | none => .error (unprocessable "invalid Compute envelope")

/-- The scalar name a node advertises for the scalar name of a request. -/
def mappedScalar : String → String
  | "float" => "fp32"
  | "double" => "fp64"
  | "long_double" => "fp80"
  | s => s

def nodeSupports (node : ComputeNode) (kind : String) (payload : Json) (persistent : Bool) : Bool :=
  let caps := node.capabilitiesJson.getD (.obj [])
  match caps.list? (if persistent then "persistentKinds" else "previewKinds") with
  | none => false
  | some kinds =>
    if !Json.memStr kind kinds then false
    else match ((caps.list? "jobs").getD []).find? fun job =>
        job.isObj && (job.get? "kind").bind Json.str? = some kind with
    | none => false
    | some job =>
      let engineRefused := match (payload.get? "engine").bind Json.str?, job.list? "engines" with
        | some engine, some engines => engine ∉ ["auto", "cpu"] && !Json.memStr engine engines
        | _, _ => false
      let scalarRefused := match (payload.get? "scalarType").bind Json.str?, job.list? "scalars" with
        | some scalar, some scalars =>
          mappedScalar scalar ≠ "auto" && !Json.memStr (mappedScalar scalar) scalars
        | _, _ => false
      !engineRefused && !scalarRefused

def healthy (cfg : Settings) (now : DateTime) (node : ComputeNode) : Bool :=
  match node.lastHealthyAt with
  | none => false
  | some t => now ≤ t + cfg.nodeOfflineAfter

def stateFromStatus (status : Option Json) : RunState :=
  match status.bind Json.str? with
  | some "queued" => .queued
  | some "running" => .running
  | some "completed" => .completed
  | some "failed" => .failed
  | some "cancelled" => .cancelled
  | _ => .failed

def responseData (body : Json) : Except GatewayError Json :=
  match body.get? "data" with
  | some (.obj fields) => .ok (.obj fields)
  | _ => .error ⟨502, "COMPUTE_INVALID_RESPONSE", "invalid Compute response"⟩

def unavailableError (error : UpstreamError) : GatewayError :=
  match error.code with
  | .upstreamAuthFailed =>
    ⟨503, "COMPUTE_UPSTREAM_AUTH_FAILED", "Compute upstream authentication failed"⟩
  | .rejected => ⟨error.statusCode.getD 422, "COMPUTE_REJECTED", "Compute rejected request"⟩
  | .conflict => ⟨409, "COMPUTE_CONFLICT", "Compute request conflicts with existing state"⟩
  | _ => ⟨503, "COMPUTE_NODE_UNAVAILABLE", "assigned Compute node is temporarily unavailable"⟩

def nodeKeyOk (key : String) : Bool :=
  let lead (c : Char) := c.isLower || c.isDigit
  match key.toList with
  | [] => false
  | c :: rest => lead c && 1 ≤ rest.length && rest.length ≤ 62 && rest.all fun c => lead c || c = '-'

theorem isTerminal_eq_not_isActive (st : RunState) : st.isTerminal = !st.isActive := by
  cases st <;> rfl

end FractalStudio.Gateway
