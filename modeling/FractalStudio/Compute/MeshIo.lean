import FractalStudio.Compute.Mesh
import FractalStudio.Lib.Bytes
import FractalStudio.Lib.Json

/-!
# Mesh files

`writeStlBinary` and `writeGlb` of `mesh_io.cpp`, as the bytes of the file. A float is its 32-bit
word; the arithmetic of the normals, the comparisons of the bounding box and the text of the
JSON chunk are parameters. Creating, renaming and removing files is left out.
-/
namespace FractalStudio.Compute

open Bytes

/-- The operations on `float` words. -/
structure FloatOps where
  sub : UInt32 → UInt32 → UInt32
  mul : UInt32 → UInt32 → UInt32
  add : UInt32 → UInt32 → UInt32
  div : UInt32 → UInt32 → UInt32
  sqrt : UInt32 → UInt32
  lt : UInt32 → UInt32 → Bool
  json : UInt32 → Json

/-- The bytes of a text in one-byte characters. -/
def textBytes (text : String) : List UInt8 := text.toList.map fun ch => UInt8.ofNat ch.toNat

def floatBytes (w : UInt32) : List UInt8 := le32 w.toNat

def vec3Bytes (v : Vec3 UInt32) : List UInt8 := floatBytes v.x ++ floatBytes v.y ++ floatBytes v.z

/-! ## `writeStlBinary` -/

abbrev Corners := Vec3 UInt32 × Vec3 UInt32 × Vec3 UInt32

/-- The corners of a triangle, when its three indices are below the number of vertices. -/
def corners (mesh : Mesh UInt32) (t : Nat × Nat × Nat) : Option Corners := do
  let a ← mesh.vertices[t.1]?
  let b ← mesh.vertices[t.2.1]?
  let c ← mesh.vertices[t.2.2]?
  some (a, b, c)

/-- The triangles that are not skipped. -/
def validTriangles (mesh : Mesh UInt32) : List Corners := mesh.triangles.filterMap (corners mesh)

/-- Normal via cross product. -/
def normal (F : FloatOps) (t : Corners) : Vec3 UInt32 :=
  let a := t.1
  let b := t.2.1
  let c := t.2.2
  let ux := F.sub b.x a.x
  let uy := F.sub b.y a.y
  let uz := F.sub b.z a.z
  let vx := F.sub c.x a.x
  let vy := F.sub c.y a.y
  let vz := F.sub c.z a.z
  let nx := F.sub (F.mul uy vz) (F.mul uz vy)
  let ny := F.sub (F.mul uz vx) (F.mul ux vz)
  let nz := F.sub (F.mul ux vy) (F.mul uy vx)
  let len := F.sqrt (F.add (F.add (F.mul nx nx) (F.mul ny ny)) (F.mul nz nz))
  if F.lt 0 len then ⟨F.div nx len, F.div ny len, F.div nz len⟩ else ⟨nx, ny, nz⟩

def stlHeader : List UInt8 := textBytes "fractal_studio HS mesh" ++ List.replicate 58 0

def stlTriangle (F : FloatOps) (t : Corners) : List UInt8 :=
  vec3Bytes (normal F t) ++ vec3Bytes t.1 ++ vec3Bytes t.2.1 ++ vec3Bytes t.2.2 ++ [0, 0]

def writeStlBinary (F : FloatOps) (mesh : Mesh UInt32) : List UInt8 :=
  stlHeader ++ le32 (validTriangles mesh).length ++ (validTriangles mesh).flatMap (stlTriangle F)

/-! ## `writeGlb` -/

structure Bbox where
  lo : Vec3 UInt32
  hi : Vec3 UInt32

def least (F : FloatOps) (a v : UInt32) : UInt32 := if F.lt v a then v else a

def greatest (F : FloatOps) (a v : UInt32) : UInt32 := if F.lt a v then v else a

def computeBbox (F : FloatOps) (mesh : Mesh UInt32) : Bbox :=
  match mesh.vertices with
  | [] => ⟨⟨0, 0, 0⟩, ⟨0, 0, 0⟩⟩
  | v :: _ =>
    mesh.vertices.foldl
      (fun b v => ⟨⟨least F b.lo.x v.x, least F b.lo.y v.y, least F b.lo.z v.z⟩,
        ⟨greatest F b.hi.x v.x, greatest F b.hi.y v.y, greatest F b.hi.z v.z⟩⟩) ⟨v, v⟩

/-- What the document says about the buffers, with its bounds. -/
structure GlbLayout where
  vertexCount : Nat
  indexCount : Nat
  posBytes : Nat
  idxBytes : Nat

def gltfDocument (g : GlbLayout) (min max : Json) : Json :=
  .obj [
    ("asset", .obj [("version", .str "2.0"), ("generator", .str "fractal_studio")]),
    ("scene", .int 0),
    ("scenes", .arr [.obj [("nodes", .arr [.int 0])]]),
    ("nodes", .arr [.obj [("mesh", .int 0)]]),
    ("meshes", .arr [.obj [("primitives", .arr [.obj [
      ("attributes", .obj [("POSITION", .int 0)]), ("indices", .int 1), ("mode", .int 4)]])]]),
    ("accessors", .arr [
      .obj [("bufferView", .int 0), ("componentType", .int 5126), ("count", .int g.vertexCount),
        ("type", .str "VEC3"), ("min", min), ("max", max)],
      .obj [("bufferView", .int 1), ("componentType", .int 5125), ("count", .int g.indexCount),
        ("type", .str "SCALAR")]]),
    ("bufferViews", .arr [
      .obj [("buffer", .int 0), ("byteOffset", .int 0), ("byteLength", .int g.posBytes),
        ("target", .int 34962)],
      .obj [("buffer", .int 0), ("byteOffset", .int g.posBytes), ("byteLength", .int g.idxBytes),
        ("target", .int 34963)]]),
    ("buffers", .arr [.obj [("byteLength", .int (g.posBytes + g.idxBytes))]])]

def vec3Json (F : FloatOps) (v : Vec3 UInt32) : Json := .arr [F.json v.x, F.json v.y, F.json v.z]

/-- The counts are `uint32_t`, and so are the products with a literal. -/
def glbLayout (mesh : Mesh UInt32) : GlbLayout where
  vertexCount := mesh.vertices.length % 2 ^ 32
  indexCount := mesh.indices.length % 2 ^ 32
  posBytes := mesh.vertices.length % 2 ^ 32 * 12 % 2 ^ 32
  idxBytes := mesh.indices.length % 2 ^ 32 * 4 % 2 ^ 32

/-- The content of the JSON chunk, padded with spaces. -/
def jsonChunk (F : FloatOps) (dump : Json → List UInt8) (mesh : Mesh UInt32) : List UInt8 :=
  padTo4 0x20 (dump (gltfDocument (glbLayout mesh) (vec3Json F (computeBbox F mesh).lo)
    (vec3Json F (computeBbox F mesh).hi)))

def binChunk (mesh : Mesh UInt32) : List UInt8 :=
  padTo4 0 ((mesh.vertices.flatMap vec3Bytes).take (glbLayout mesh).posBytes ++
    (mesh.indices.flatMap le32).take (glbLayout mesh).idxBytes)

def glbFile (json bin : List UInt8) : List UInt8 :=
  let jsonChunkLen := json.length % 2 ^ 32
  let binChunkLen := bin.length % 2 ^ 32
  let totalLen := (12 + 8 + jsonChunkLen + 8 + binChunkLen) % 2 ^ 32
  textBytes "glTF" ++ (le32 2 ++ (le32 totalLen ++
    (le32 jsonChunkLen ++ (textBytes "JSON" ++ (json ++
      (le32 binChunkLen ++ (textBytes "BIN\x00" ++ bin)))))))

def writeGlb (F : FloatOps) (dump : Json → List UInt8) (mesh : Mesh UInt32) :
    Except String (List UInt8) :=
  if mesh.vertices.isEmpty || mesh.indices.isEmpty then .error "writeGlb: empty mesh"
  else .ok (glbFile (jsonChunk F dump mesh) (binChunk mesh))

end FractalStudio.Compute
