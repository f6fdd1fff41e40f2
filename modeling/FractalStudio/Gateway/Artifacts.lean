import FractalStudio.Gateway.Model

/-!
# Rewriting an upstream manifest

`_persist_manifest` checks every item of a manifest, records the artifacts it has
not seen, and answers the items under Gateway identifiers. One malformed item
raises, and the transaction that records the others is rolled back.
`stream_artifact` reads the identifiers back.
-/
namespace FractalStudio.Gateway

def uuidText (u : Uuid) : String := Nat.repr u

def allowedMediaTypes : List String :=
  ["image/png", "video/mp4", "model/gltf-binary", "model/stl", "application/sla",
    "application/json", "application/octet-stream"]

def safeArtifactFile (name : List Char) : Bool :=
  match name with
  | [] => false
  | c :: rest =>
    c ∉ ['/', '\\', ':', '.'] && rest.all fun d => d ∉ ['/', '\\']

/-- `re.fullmatch(r"[0-9a-f]{64}", sha256)`. -/
def sha256Ok (text : String) : Bool :=
  text.toList.length = 64 && text.toList.all fun c => c.isDigit || c ∈ ['a', 'b', 'c', 'd', 'e', 'f']

def artifactFile (nodeRunId nodeArtifactId : String) : Option (List Char) :=
  let lead := nodeRunId.toList ++ [':']
  if lead.isPrefixOf nodeArtifactId.toList then some (nodeArtifactId.toList.drop lead.length)
  else none

def invalidResponse (message : String) : GatewayError := ⟨502, "COMPUTE_INVALID_RESPONSE", message⟩

/-- Why a manifest does not go through: a `GatewayError`, or an exception of another kind. -/
inductive ManifestFailure where
  | refused (error : GatewayError)
  | crashed

/-- The checks of one manifest item, and the row it stands for. A list or an object
as media type cannot be looked up in the allowed set and raises there. -/
def manifestRow (run : Uuid) (nodeRunId : String) (item : Json) :
    Except ManifestFailure RunArtifact :=
  let refuse (message : String) := .error (.refused (invalidResponse message))
  if !item.isObj then refuse "invalid Compute artifact"
  else match ((item.get? "artifactId").bind Json.str?).bind fun nodeArtifactId =>
      (artifactFile nodeRunId nodeArtifactId).map fun file => (nodeArtifactId, file) with
  | none => refuse "invalid Compute artifact ID"
  | some (nodeArtifactId, file) =>
    if !safeArtifactFile file then refuse "unsafe Compute artifact manifest"
    else if (item.get? "mediaType").any fun v => v.isObj || v.arr?.isSome then .error .crashed
    else match (item.get? "mediaType").bind Json.str?, (item.get? "sizeBytes").bind Json.int?,
        (item.get? "sha256").bind Json.str? with
    | some mediaType, some size, some sha256 =>
      if mediaType ∈ allowedMediaTypes && 0 < size && size ≤ 524288000 && sha256Ok sha256 then
        .ok ⟨run, uuidText run ++ ":" ++ String.ofList file, nodeArtifactId, mediaType, size, sha256⟩
      else refuse "unsafe Compute artifact manifest"
    | _, _, _ => refuse "unsafe Compute artifact manifest"

/-- The two identifiers fit their columns of 512 characters. The text of a UUID has 36. -/
def RunArtifact.fits (a : RunArtifact) : Bool :=
  a.nodeArtifactId.length ≤ 512 &&
    36 + (a.externalArtifactId.length - (uuidText a.gatewayRunId).length) ≤ 512

/-- The item as it is answered, under the Gateway's identifier. -/
def rewriteItem (item : Json) (externalId : String) : Json :=
  (item.set "artifactId" (.str externalId)).set "contentPath"
    (.str ("/compute/v1/artifacts?artifactId=" ++ externalId))

/-- The loop of `_persist_manifest`: the rows the transaction adds, and the rewritten items. A row is
sent, and perhaps refused, before the next lookup or the commit. -/
def persistManifest (run : Uuid) (nodeRunId : String) (known : List RunArtifact) :
    List RunArtifact → List Json → Except ManifestFailure (List RunArtifact × List Json)
  | added, [] => if added.all RunArtifact.fits then .ok (added, []) else .error .crashed
  | added, item :: items => do
    let row ← manifestRow run nodeRunId item
    if !added.all RunArtifact.fits then .error .crashed
    else
      let added' :=
        if (known ++ added).any (fun a => a.externalArtifactId = row.externalArtifactId) then added
        else added ++ [row]
      let (rows, rewritten) ← persistManifest run nodeRunId known added' items
      return (rows, rewriteItem item row.externalArtifactId :: rewritten)

def resolveArtifact (db : Db) (externalId : String) : Option (Uuid × String) :=
  (db.artifacts.find? fun a => a.externalArtifactId = externalId).bind fun a =>
    ((db.runs.find? a.gatewayRunId).filter fun run => (db.nodes.find? run.nodeId).isSome).map
      fun run => (run.nodeId, a.nodeArtifactId)

end FractalStudio.Gateway
