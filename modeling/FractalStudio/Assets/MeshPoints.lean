import FractalStudio.Compute.Mesh
import FractalStudio.Lib.Bytes
import FractalStudio.Lib.Json

/-!
# Reading the points of a mesh file

`_stl_points` and `_glb_points` of `media_worker.py`. A result `none` stands for an exception. The
values of floats, the reading of the JSON chunk and of text lines, and `int` and `float` on a text
are parameters.
-/
namespace FractalStudio.Assets

open Compute (Vec3)
open Bytes

/-- The library functions the reader relies on; `P` is the type of float values. -/
structure Decoders (P : Type) where
  /-- the value of a 32-bit float word -/
  ofBits : UInt32 → P
  /-- `json.loads(chunk.decode("utf-8"))` -/
  load : List UInt8 → Option Json
  /-- `line.strip().split()` for each line of the text -/
  lines : List UInt8 → List (List String)
  float : String → Option P
  int : String → Option Int

variable {P : Type} (D : Decoders P)

def floatAt (data : List UInt8) (offset : Nat) : Option P :=
  (word32 (data.drop offset)).map fun n => D.ofBits (UInt32.ofNat n)

def pointAt (data : List UInt8) (offset : Nat) : Option (Vec3 P) := do
  let x ← floatAt D data offset
  let y ← floatAt D data (offset + 4)
  let z ← floatAt D data (offset + 8)
  some ⟨x, y, z⟩

/-- `struct.unpack_from("<fff", data, offset)`; a negative offset counts from the end. -/
def unpackPoint (data : List UInt8) (offset : Int) : Option (Vec3 P) :=
  if 0 ≤ offset then pointAt D data offset.toNat
  else if offset + 12 ≤ 0 ∧ 0 ≤ offset + data.length then
    pointAt D data (offset + data.length).toNat
  else none

def vertexLine : List String → Option (Vec3 P)
  | [word, x, y, z] =>
    if word.toLower = "vertex" then do
      let x ← D.float x
      let y ← D.float y
      let z ← D.float z
      some ⟨x, y, z⟩
    else none
  | _ => none

def asciiPoints (data : List UInt8) : List (Vec3 P) :=
  ((D.lines data).filterMap (vertexLine D)).take 3000000

/-- The three corners of each record of 50 bytes. -/
def binaryPoints (data : List UInt8) (triangles : Nat) : Option (List (List (Vec3 P))) :=
  (List.range triangles).mapM fun i =>
    [12, 24, 36].mapM fun vertexOffset => pointAt D data (84 + i * 50 + vertexOffset)

def stlPoints (data : List UInt8) : Option (List (Vec3 P)) :=
  if 84 ≤ data.length then
    match word32 (data.drop 80) with
    | none => none
    | some triangles =>
      if 84 + triangles * 50 = data.length ∧ triangles ≤ 1000000 then
        (binaryPoints D data triangles).map List.flatten
      else some (asciiPoints D data)
  else some (asciiPoints D data)

/-! ## `_glb_points` -/

/-- The chunks from a position on; the last JSON and the last BIN chunk count. The fuel is the
number of bytes left, and each chunk takes eight or more. -/
def glbChunks : Nat → List UInt8 → Option Json → Option (List UInt8) →
    Option (Option Json × Option (List UInt8))
  | 0, _, document, binary => some (document, binary)
  | fuel + 1, data, document, binary =>
    if data.length < 8 then some (document, binary)
    else do
      let length ← word32 data
      let chunkType ← word32 (data.drop 4)
      let rest := data.drop 8
      if rest.length < length then none
      else if chunkType = 0x4E4F534A then do
        let loaded ← D.load (rest.take length)
        glbChunks fuel (rest.drop length) (some loaded) binary
      else if chunkType = 0x004E4942 then
        glbChunks fuel (rest.drop length) document (some (rest.take length))
      else glbChunks fuel (rest.drop length) document binary

/-- `container[key]` on a dictionary or a list. -/
def item : Json → Json → Option Json
  | .obj fields, .str key => (Json.obj fields).get? key
  | .arr items, key => do
    let i ← key.int?
    if 0 ≤ i then items[i.toNat]?
    else if 0 ≤ i + items.length then items[(i + items.length).toNat]?
    else none
  | _, _ => none

def getOr (v : Json) (key : String) (default : Int) : Option Json :=
  if v.isObj then some ((v.get? key).getD (.int default)) else none

/-- `int(value)` -/
def toInt : Json → Option Int
  | .int n => some n
  | .bool b => some (if b then 1 else 0)
  | .float q => some (q.num.tdiv q.den)
  | .str s => D.int s
  | _ => none

def documentPoints (document : Json) (binary : List UInt8) : Option (List (Vec3 P)) := do
  let meshes ← document.get? "meshes"
  let accessors ← document.get? "accessors"
  let views ← document.get? "bufferViews"
  let mesh ← item meshes (.int 0)
  let primitives ← mesh.get? "primitives"
  let primitive ← item primitives (.int 0)
  let attributes ← primitive.get? "attributes"
  let position ← attributes.get? "POSITION"
  let accessor ← item accessors position
  let bufferView ← accessor.get? "bufferView"
  let view ← item views bufferView
  let count ← (accessor.get? "count").bind (toInt D)
  let componentType ← accessor.get? "componentType"
  let type ← accessor.get? "type"
  if componentType.equalsInt 5126 = false ∨ type.str? ≠ some "VEC3" ∨
      ¬ (0 < count ∧ count ≤ 1000000) then none
  else do
    let viewOffset ← (getOr view "byteOffset" 0).bind (toInt D)
    let accessorOffset ← (getOr accessor "byteOffset" 0).bind (toInt D)
    let stride ← (getOr view "byteStride" 12).bind (toInt D)
    let start := viewOffset + accessorOffset
    if stride < 12 ∨ (binary.length : Int) < start + (count - 1) * stride + 12 then none
    else (List.range count.toNat).mapM fun (index : Nat) =>
      unpackPoint D binary (start + index * stride)

def glbPoints (data : List UInt8) : Option (List (Vec3 P)) :=
  if data.length < 20 ∨ word32 data ≠ some 0x46546C67 then none
  else if word32 (data.drop 4) ≠ some 2 ∨ word32 (data.drop 8) ≠ some data.length then none
  else do
    let chunks ← glbChunks D data.length (data.drop 12) none none
    let document ← chunks.1
    let binary ← chunks.2
    documentPoints D document binary

end FractalStudio.Assets
