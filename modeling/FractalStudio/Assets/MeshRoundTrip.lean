import FractalStudio.Assets.MeshPoints
import FractalStudio.Compute.MeshIo

/-!
# Mesh files between Compute and the Platform

Every float of a file stands where the reader looks for it. So the reader gives the vertices of a
GLB file and the corners of an STL file back, as long as there are at most a million vertices or
triangles; beyond that it refuses the GLB file and takes the STL file for text.
-/
namespace FractalStudio.Assets

open Compute Bytes

variable {P : Type} {D : Decoders P} {F : FloatOps}

/-- The values of the three words. -/
def value (D : Decoders P) (v : Vec3 UInt32) : Vec3 P := ⟨D.ofBits v.x, D.ofBits v.y, D.ofBits v.z⟩

@[simp] theorem length_vec3Bytes (v : Vec3 UInt32) : (vec3Bytes v).length = 12 := rfl

theorem floatAt_of_drop {data : List UInt8} {offset : Nat} {w : UInt32} (rest : List UInt8)
    (h : data.drop offset = floatBytes w ++ rest) :
    floatAt D data offset = some (D.ofBits w) := by
  rw [floatAt, h, floatBytes, word32_le32_of_lt w.toNat_lt, Option.map_some, UInt32.ofNat_toNat]

theorem pointAt_of_drop {data : List UInt8} {offset : Nat} {v : Vec3 UInt32} (rest : List UInt8)
    (h : data.drop offset = vec3Bytes v ++ rest) : pointAt D data offset = some (value D v) := by
  have hx : floatAt D data offset = some (D.ofBits v.x) := by
    refine floatAt_of_drop (floatBytes v.y ++ (floatBytes v.z ++ rest)) ?_
    rw [h, vec3Bytes, List.append_assoc, List.append_assoc]
  have hy : floatAt D data (offset + 4) = some (D.ofBits v.y) := by
    refine floatAt_of_drop (floatBytes v.z ++ rest) ?_
    rw [← List.drop_drop, h, vec3Bytes, List.append_assoc, List.append_assoc]
    rfl
  have hz : floatAt D data (offset + 8) = some (D.ofBits v.z) := by
    refine floatAt_of_drop rest ?_
    rw [← List.drop_drop, h, vec3Bytes, List.append_assoc, List.append_assoc]
    rfl
  rw [pointAt, hx, hy, hz]
  rfl

/-! ## STL -/

theorem length_stlTriangle (t : Corners) : (stlTriangle F t).length = 50 := rfl

theorem length_stlHeader : stlHeader.length = 80 := by decide

theorem length_writeStlBinary (mesh : Mesh UInt32) :
    (writeStlBinary F mesh).length = 84 + (validTriangles mesh).length * 50 := by
  have hrecords := length_records (f := stlTriangle F) (validTriangles mesh)
    fun t _ => length_stlTriangle t
  rw [writeStlBinary, List.length_append, List.length_append, hrecords, length_stlHeader,
    length_le32]

theorem drop_writeStlBinary (mesh : Mesh UInt32) :
    (writeStlBinary F mesh).drop 80 =
        le32 (validTriangles mesh).length ++ (validTriangles mesh).flatMap (stlTriangle F) ∧
      (writeStlBinary F mesh).drop 84 = (validTriangles mesh).flatMap (stlTriangle F) := by
  have hcount : (writeStlBinary F mesh).drop 80 =
      le32 (validTriangles mesh).length ++ (validTriangles mesh).flatMap (stlTriangle F) := by
    rw [writeStlBinary, List.append_assoc]
    exact List.drop_left' length_stlHeader
  refine ⟨hcount, ?_⟩
  show (writeStlBinary F mesh).drop (80 + 4) = _
  rw [← List.drop_drop, hcount]
  exact List.drop_left' (length_le32 _)

theorem binaryPoints_writeStlBinary (mesh : Mesh UInt32) :
    binaryPoints D (writeStlBinary F mesh) (validTriangles mesh).length =
      some ((validTriangles mesh).map fun t => [value D t.1, value D t.2.1, value D t.2.2]) := by
  refine mapM_range _ fun i hi => ?_
  have hrecord : (writeStlBinary F mesh).drop (84 + i * 50) =
      stlTriangle F (validTriangles mesh)[i] ++
        ((validTriangles mesh).drop (i + 1)).flatMap (stlTriangle F) := by
    rw [← List.drop_drop, (drop_writeStlBinary mesh).2]
    exact drop_record _ (fun t _ => length_stlTriangle t) hi
  generalize (validTriangles mesh)[i] = t at hrecord ⊢
  generalize ((validTriangles mesh).drop (i + 1)).flatMap (stlTriangle F) = rest at hrecord
  have ha : pointAt D (writeStlBinary F mesh) (84 + i * 50 + 12) = some (value D t.1) := by
    refine pointAt_of_drop (vec3Bytes t.2.1 ++ (vec3Bytes t.2.2 ++ ([0, 0] ++ rest))) ?_
    rw [← List.drop_drop, hrecord, stlTriangle]
    simp only [List.append_assoc]
    exact List.drop_left' (length_vec3Bytes _)
  have hb : pointAt D (writeStlBinary F mesh) (84 + i * 50 + 24) = some (value D t.2.1) := by
    refine pointAt_of_drop (vec3Bytes t.2.2 ++ ([0, 0] ++ rest)) ?_
    rw [← List.drop_drop, hrecord, stlTriangle]
    simp only [List.append_assoc]
    rw [← List.append_assoc]
    exact List.drop_left' rfl
  have hc : pointAt D (writeStlBinary F mesh) (84 + i * 50 + 36) = some (value D t.2.2) := by
    refine pointAt_of_drop ([0, 0] ++ rest) ?_
    rw [← List.drop_drop, hrecord, stlTriangle]
    simp only [List.append_assoc]
    rw [← List.append_assoc, ← List.append_assoc]
    exact List.drop_left' rfl
  simp only [List.mapM_cons, List.mapM_nil, ha, hb, hc, Option.bind_eq_bind, Option.bind_some,
    Option.pure_def]

theorem stlPoints_writeStlBinary (mesh : Mesh UInt32)
    (hcount : (validTriangles mesh).length ≤ 1000000) :
    stlPoints D (writeStlBinary F mesh) =
      some ((flatten (validTriangles mesh)).map (value D)) := by
  have hlength := length_writeStlBinary (F := F) mesh
  have hword : word32 ((writeStlBinary F mesh).drop 80) = some (validTriangles mesh).length := by
    rw [(drop_writeStlBinary mesh).1]
    exact word32_le32_of_lt (by omega) _
  rw [stlPoints, if_pos (by omega), hword]
  simp only
  rw [if_pos ⟨hlength.symm, hcount⟩, binaryPoints_writeStlBinary, Option.map_some, flatten,
    List.map_flatMap, List.flatMap_def]
  rfl

theorem stlPoints_length_le {data : List UInt8} {points : List (Vec3 P)} {n : Nat}
    (hcount : word32 (data.drop 80) = some n) (hmany : 1000000 < n)
    (h : stlPoints D data = some points) : points.length ≤ 3000000 := by
  have hascii : points = asciiPoints D data := by
    rw [stlPoints] at h
    split at h
    · simp only [hcount] at h
      rw [if_neg (by omega)] at h
      exact (Option.some.inj h).symm
    · exact (Option.some.inj h).symm
  rw [hascii, asciiPoints, List.length_take]
  omega

/-! ## GLB -/

theorem glTF_bytes : textBytes "glTF" = le32 0x46546C67 := by decide

theorem json_bytes : textBytes "JSON" = le32 0x4E4F534A := by decide

theorem bin_bytes : textBytes "BIN\x00" = le32 0x004E4942 := by decide

section Glb
variable {json bin : List UInt8}

theorem length_glbFile (json bin : List UInt8) :
    (glbFile json bin).length = 28 + json.length + bin.length := by
  simp only [glbFile, glTF_bytes, json_bytes, bin_bytes, List.length_append, length_le32]
  omega

theorem glbFile_eq (hsize : (glbFile json bin).length < 2 ^ 32) :
    glbFile json bin = le32 0x46546C67 ++ (le32 2 ++ (le32 (glbFile json bin).length ++
      (le32 json.length ++ (le32 0x4E4F534A ++ (json ++
        (le32 bin.length ++ (le32 0x004E4942 ++ bin))))))) := by
  rw [length_glbFile] at hsize ⊢
  have htotal : (12 + 8 + json.length % 2 ^ 32 + 8 + bin.length % 2 ^ 32) % 2 ^ 32 =
      28 + json.length + bin.length := by omega
  rw [glbFile, htotal, Nat.mod_eq_of_lt (show json.length < 2 ^ 32 by omega),
    Nat.mod_eq_of_lt (show bin.length < 2 ^ 32 by omega), glTF_bytes, json_bytes, bin_bytes]

theorem drop_le32 (n : Nat) (rest : List UInt8) : (le32 n ++ rest).drop 4 = rest :=
  List.drop_left' (length_le32 n)

theorem glbChunks_chunk {fuel chunkType : Nat} {chunk rest : List UInt8} (document : Option Json)
    (binary : Option (List UInt8)) (hlength : chunk.length < 2 ^ 32) (htype : chunkType < 2 ^ 32) :
    glbChunks D (fuel + 1) (le32 chunk.length ++ (le32 chunkType ++ (chunk ++ rest))) document
        binary =
      if chunkType = 0x4E4F534A then
        (D.load chunk).bind fun loaded => glbChunks D fuel rest (some loaded) binary
      else if chunkType = 0x004E4942 then glbChunks D fuel rest document (some chunk)
      else glbChunks D fuel rest document binary := by
  have hdrop : (le32 chunk.length ++ (le32 chunkType ++ (chunk ++ rest))).drop 8 =
      chunk ++ rest := by
    show List.drop (4 + 4) _ = _
    rw [← List.drop_drop, drop_le32, drop_le32]
  rw [glbChunks, if_neg (by simp only [List.length_append, length_le32]; omega)]
  simp only [word32_le32_of_lt hlength, drop_le32, word32_le32_of_lt htype, hdrop,
    Option.bind_eq_bind, Option.bind_some, List.take_left, List.drop_left]
  rw [if_neg (by rw [List.length_append]; omega)]

theorem glbChunks_nil (fuel : Nat) (document : Option Json) (binary : Option (List UInt8)) :
    glbChunks D fuel [] document binary = some (document, binary) := by
  cases fuel with
  | zero => rfl
  | succ fuel => rfl

theorem drop_glbFile (hsize : (glbFile json bin).length < 2 ^ 32) :
    (glbFile json bin).drop 4 = le32 2 ++ (glbFile json bin).drop 8 ∧
      (glbFile json bin).drop 8 = le32 (glbFile json bin).length ++ (glbFile json bin).drop 12 ∧
      (glbFile json bin).drop 12 = le32 json.length ++ (le32 0x4E4F534A ++ (json ++
        (le32 bin.length ++ (le32 0x004E4942 ++ bin)))) := by
  have hfile := glbFile_eq hsize
  have h4 : (glbFile json bin).drop 4 = le32 2 ++ (le32 (glbFile json bin).length ++
      (le32 json.length ++ (le32 0x4E4F534A ++ (json ++
        (le32 bin.length ++ (le32 0x004E4942 ++ bin)))))) := by
    conv_lhs => rw [hfile]
    exact drop_le32 _ _
  have h8 : (glbFile json bin).drop 8 = le32 (glbFile json bin).length ++
      (le32 json.length ++ (le32 0x4E4F534A ++ (json ++
        (le32 bin.length ++ (le32 0x004E4942 ++ bin))))) := by
    show List.drop (4 + 4) _ = _
    rw [← List.drop_drop, h4, drop_le32]
  have h12 : (glbFile json bin).drop 12 = le32 json.length ++ (le32 0x4E4F534A ++ (json ++
      (le32 bin.length ++ (le32 0x004E4942 ++ bin)))) := by
    show List.drop (8 + 4) _ = _
    rw [← List.drop_drop, h8, drop_le32]
  exact ⟨by rw [h4, h8], by rw [h8, h12], h12⟩

theorem glbPoints_glbFile {document : Json} (hsize : (glbFile json bin).length < 2 ^ 32)
    (hload : D.load json = some document) :
    glbPoints D (glbFile json bin) = documentPoints D document bin := by
  have hlength := length_glbFile json bin
  obtain ⟨h4, h8, h12⟩ := drop_glbFile hsize
  have hmagic : word32 (glbFile json bin) = some 0x46546C67 := by
    rw [glbFile_eq hsize]
    exact word32_le32_of_lt (by decide) _
  have htwo : word32 ((glbFile json bin).drop 4) = some 2 := by
    rw [h4]
    exact word32_le32_of_lt (by decide) _
  have htotal : word32 ((glbFile json bin).drop 8) = some (glbFile json bin).length := by
    rw [h8]
    exact word32_le32_of_lt hsize _
  obtain ⟨fuel, hfuel⟩ : ∃ fuel, (glbFile json bin).length = fuel + 2 :=
    ⟨(glbFile json bin).length - 2, by omega⟩
  have hchunks : glbChunks D (glbFile json bin).length ((glbFile json bin).drop 12) none none =
      some (some document, some bin) := by
    rw [← List.append_nil (le32 0x004E4942 ++ bin), List.append_assoc] at h12
    rw [hfuel, h12, glbChunks_chunk none none (by omega) (by decide), if_pos rfl, hload,
      Option.bind_some, glbChunks_chunk _ none (by omega) (by decide), if_neg (by decide),
      if_pos rfl, glbChunks_nil]
  rw [glbPoints, if_neg (not_or.mpr ⟨by omega, fun h => h hmagic⟩),
    if_neg (not_or.mpr ⟨fun h => h htwo, fun h => h htotal⟩), hchunks]
  rfl

end Glb

theorem documentPoints_read (g : GlbLayout) (min max : Json) (binary : List UInt8) :
    documentPoints D (gltfDocument g min max) binary =
      if (Json.int 5126).equalsInt 5126 = false ∨ (Json.str "VEC3").str? ≠ some "VEC3" ∨
          ¬ (0 < (g.vertexCount : Int) ∧ (g.vertexCount : Int) ≤ 1000000) then none
      else if (12 : Int) < 12 ∨
          (binary.length : Int) < 0 + 0 + ((g.vertexCount : Int) - 1) * 12 + 12 then none
      else (List.range (g.vertexCount : Int).toNat).mapM fun (index : Nat) =>
        unpackPoint D binary (0 + 0 + index * 12) := by
  rfl

/-- The reader finds the vertices through the accessors that the writer names. -/
theorem documentPoints_gltfDocument {g : GlbLayout} {min max : Json} {vertices : List (Vec3 UInt32)}
    {rest : List UInt8} (hcount : g.vertexCount = vertices.length) (hpos : 0 < vertices.length)
    (hmany : vertices.length ≤ 1000000) :
    documentPoints D (gltfDocument g min max) (vertices.flatMap vec3Bytes ++ rest) =
      some (vertices.map (value D)) := by
  have hrecords := length_records (f := vec3Bytes) vertices fun v _ => length_vec3Bytes v
  have hread : ∀ i (hi : i < vertices.length),
      unpackPoint D (vertices.flatMap vec3Bytes ++ rest) ((i : Int) * 12) =
        some (value D vertices[i]) := by
    intro i hi
    rw [unpackPoint, if_pos (by omega), show ((i : Int) * 12).toNat = i * 12 by omega]
    have hdrop := drop_record (f := vec3Bytes) vertices (fun v _ => length_vec3Bytes v) hi
    have hle : i * 12 ≤ (vertices.flatMap vec3Bytes).length := by omega
    refine pointAt_of_drop ((vertices.drop (i + 1)).flatMap vec3Bytes ++ rest) ?_
    rw [List.drop_append_of_le_length hle, hdrop, List.append_assoc]
  have hroom : ¬ ((vertices.flatMap vec3Bytes ++ rest).length : Int) <
      ((vertices.length : Int) - 1) * 12 + 12 := by
    rw [List.length_append, hrecords]
    omega
  have hrange : (0 : Int) < vertices.length ∧ (vertices.length : Int) ≤ 1000000 := by omega
  rw [documentPoints_read, hcount, if_neg, if_neg]
  · simp only [Int.zero_add, Int.toNat_natCast]
    exact mapM_range vertices hread
  · simpa only [Int.zero_add, Int.lt_irrefl, false_or] using hroom
  · rintro (hfloat | hvec | hcount)
    · exact absurd hfloat (by decide)
    · exact hvec rfl
    · exact hcount hrange

/-! ## Both formats -/

theorem binChunk_eq {mesh : Mesh UInt32} (hmany : mesh.vertices.length ≤ 1000000) :
    ∃ rest, binChunk mesh = mesh.vertices.flatMap vec3Bytes ++ rest := by
  have hrecords := length_records (f := vec3Bytes) mesh.vertices fun v _ => length_vec3Bytes v
  have hpos : (glbLayout mesh).posBytes = (mesh.vertices.flatMap vec3Bytes).length := by
    rw [hrecords]
    show mesh.vertices.length % 2 ^ 32 * 12 % 2 ^ 32 = mesh.vertices.length * 12
    omega
  rw [binChunk, padTo4, hpos, List.take_length, List.append_assoc]
  exact ⟨_, rfl⟩

theorem glbFile_header (json bin : List UInt8) (hsize : (glbFile json bin).length < 2 ^ 32) :
    word32 ((glbFile json bin).drop 8) = some (glbFile json bin).length ∧
      word32 ((glbFile json bin).drop 12) = some json.length ∧
      word32 ((glbFile json bin).drop (20 + json.length)) = some bin.length := by
  have hlength := length_glbFile json bin
  obtain ⟨-, h8, h12⟩ := drop_glbFile hsize
  refine ⟨by rw [h8, word32_le32_of_lt hsize], by rw [h12, word32_le32_of_lt (by omega)], ?_⟩
  rw [show 20 + json.length = 12 + (4 + (4 + json.length)) by omega, ← List.drop_drop, h12,
    ← List.drop_drop, drop_le32, ← List.drop_drop, drop_le32, List.drop_left,
    word32_le32_of_lt (by omega)]

/-- The reader gives the vertices of a GLB file and the corners of an STL file back, up to a
million vertices and a million triangles. -/
theorem mesh_files_read_back (D : Decoders P) (F : FloatOps) (dump : Json → List UInt8)
    (mesh : Mesh UInt32) (hvertices : 3 ≤ mesh.vertices.length)
    (htriangle : validTriangles mesh ≠ [])
    (hjson : ∃ min max,
      D.load (jsonChunk F dump mesh) = some (gltfDocument (glbLayout mesh) min max)) :
    (∃ file, writeGlb F dump mesh = .ok file ∧ (file.length ≤ 524288000 →
      word32 (file.drop 8) = some file.length ∧
      (∃ json bin, word32 (file.drop 12) = some json ∧
        word32 (file.drop (20 + json)) = some bin ∧ json % 4 = 0 ∧ bin % 4 = 0) ∧
      (mesh.vertices.length ≤ 1000000 →
        glbPoints D file = some (mesh.vertices.map (value D))))) ∧
    ((validTriangles mesh).length ≤ 1000000 →
      stlPoints D (writeStlBinary F mesh) =
        some ((flatten (validTriangles mesh)).map (value D))) := by
  obtain ⟨min, max, hload⟩ := hjson
  refine ⟨⟨glbFile (jsonChunk F dump mesh) (binChunk mesh), ?_, fun hsize => ⟨?_, ?_, ?_⟩⟩,
    stlPoints_writeStlBinary mesh⟩
  · rw [writeGlb, if_neg]
    have hindices : mesh.indices ≠ [] := by
      intro h
      rw [validTriangles, Mesh.triangles, h] at htriangle
      exact htriangle rfl
    have hnonempty : mesh.vertices ≠ [] := by
      intro h
      rw [h, List.length_nil] at hvertices
      omega
    simp [hindices, hnonempty]
  · exact (glbFile_header _ _ (by omega)).1
  · obtain ⟨-, hjson, hbin⟩ := glbFile_header (jsonChunk F dump mesh) (binChunk mesh) (by omega)
    exact ⟨_, _, hjson, hbin, length_padTo4 _ _, length_padTo4 _ _⟩
  · intro hmany
    obtain ⟨rest, hbin⟩ := binChunk_eq hmany
    rw [glbPoints_glbFile (by omega) hload, hbin]
    refine documentPoints_gltfDocument ?_ (by omega) hmany
    show mesh.vertices.length % 2 ^ 32 = mesh.vertices.length
    omega

/-- 1.0 -/
def oneFloat : UInt32 := 0x3F800000

/-- One triangle at the origin, along the first two axes. -/
def originMesh : Mesh UInt32 := ⟨[⟨0, 0, 0⟩, ⟨oneFloat, 0, 0⟩, ⟨0, oneFloat, 0⟩], [0, 1, 2]⟩

/-- Float arithmetic on zeros and ones, as far as the mesh needs it. -/
def unitFloats : FloatOps where
  sub a b := if a = b then 0 else a
  mul a b := if a = 0 then 0 else b
  add a b := if a = 0 then b else a
  div a _ := a
  sqrt a := a
  lt a b := a = 0 ∧ b = oneFloat
  json a := .float (if a = 0 then 0 else 1)

/-- What `dump` gives for the document of `originMesh`. -/
def originText : List UInt8 :=
  textBytes ("\x7b\"accessors\":[\x7b\"bufferView\":0,\"componentType\":5126,\"count\":3," ++
    "\"max\":[1.0,1.0,0.0],\"min\":[0.0,0.0,0.0],\"type\":\"VEC3\"\x7d," ++
    "\x7b\"bufferView\":1,\"componentType\":5125,\"count\":3,\"type\":\"SCALAR\"\x7d]," ++
    "\"asset\":\x7b\"generator\":\"fractal_studio\",\"version\":\"2.0\"\x7d," ++
    "\"bufferViews\":[\x7b\"buffer\":0,\"byteLength\":36,\"byteOffset\":0," ++
    "\"target\":34962\x7d,\x7b\"buffer\":0,\"byteLength\":12,\"byteOffset\":36," ++
    "\"target\":34963\x7d],\"buffers\":[\x7b\"byteLength\":48\x7d]," ++
    "\"meshes\":[\x7b\"primitives\":[\x7b\"attributes\":\x7b\"POSITION\":0\x7d," ++
    "\"indices\":1,\"mode\":4\x7d]\x7d],\"nodes\":[\x7b\"mesh\":0\x7d],\"scene\":0," ++
    "\"scenes\":[\x7b\"nodes\":[0]\x7d]\x7d")

def originDecoders : Decoders UInt32 where
  ofBits := id
  load data :=
    if data = padTo4 0x20 originText then
      some (gltfDocument (glbLayout originMesh) (vec3Json unitFloats ⟨0, 0, 0⟩)
        (vec3Json unitFloats ⟨oneFloat, oneFloat, 0⟩))
    else none
  lines _ := []
  float _ := none
  int _ := none

theorem length_originText : originText.length = 536 := by
  simp only [originText, textBytes, List.length_map, String.toList_append, List.length_append,
    String.length_toList]
  decide

/-- One triangle with three different corners, in both formats. -/
theorem originMesh_read_back :
    (∃ file, writeGlb unitFloats (fun _ => originText) originMesh = .ok file ∧
      glbPoints originDecoders file = some (originMesh.vertices.map (value originDecoders))) ∧
    stlPoints originDecoders (writeStlBinary unitFloats originMesh) =
      some ((flatten (validTriangles originMesh)).map (value originDecoders)) := by
  have hvalid : validTriangles originMesh ≠ [] := by
    simp [validTriangles, originMesh, Mesh.triangles, triples, corners]
  have hchunk : jsonChunk unitFloats (fun _ => originText) originMesh = padTo4 0x20 originText := by
    rw [jsonChunk]
  have hload : originDecoders.load (padTo4 0x20 originText) =
      some (gltfDocument (glbLayout originMesh) (vec3Json unitFloats ⟨0, 0, 0⟩)
        (vec3Json unitFloats ⟨oneFloat, oneFloat, 0⟩)) := by
    simp only [originDecoders, if_true]
  rw [← hchunk] at hload
  obtain ⟨⟨file, hfile, hglb⟩, hstl⟩ := mesh_files_read_back originDecoders unitFloats
    (fun _ => originText) originMesh (by decide) hvalid ⟨_, _, hload⟩
  have hsize : file.length ≤ 524288000 := by
    obtain rfl : glbFile _ _ = file := Except.ok.inj hfile
    have hbin : (binChunk originMesh).length = 48 := by decide
    rw [length_glbFile, hchunk, padTo4, List.length_append, length_originText, hbin,
      List.length_replicate]
    decide
  exact ⟨⟨file, hfile, (hglb hsize).2.2 (by decide)⟩, hstl (by decide)⟩

/-- More triangles than the reader takes, in a file well below the size limit. -/
def manyTriangles : Mesh UInt32 :=
  ⟨List.replicate 3 ⟨0, 0, 0⟩, flatten (List.replicate 1000001 (0, 1, 2))⟩

theorem validTriangles_manyTriangles :
    validTriangles manyTriangles = List.replicate 1000001 (⟨0, 0, 0⟩, ⟨0, 0, 0⟩, ⟨0, 0, 0⟩) := by
  rw [validTriangles, Mesh.triangles, manyTriangles, triples_flatten]
  exact List.filterMap_replicate_of_some rfl

/-- A file with too many triangles for its reader is not read back. -/
theorem manyTriangles_not_read_back :
    3 ≤ manyTriangles.vertices.length ∧ validTriangles manyTriangles ≠ [] ∧
      ∀ (F : FloatOps) (D : Decoders UInt32),
        (writeStlBinary F manyTriangles).length ≤ 524288000 ∧
          stlPoints D (writeStlBinary F manyTriangles) ≠
            some ((flatten (validTriangles manyTriangles)).map (value D)) := by
  have hcount : (validTriangles manyTriangles).length = 1000001 := by
    rw [validTriangles_manyTriangles, List.length_replicate]
  refine ⟨Nat.le_refl 3, fun h => ?_, fun F D => ⟨?_, fun h => ?_⟩⟩
  · rw [h, List.length_nil] at hcount
    omega
  · rw [length_writeStlBinary, hcount]
    decide
  · have hword : word32 ((writeStlBinary F manyTriangles).drop 80) = some 1000001 := by
      rw [(drop_writeStlBinary manyTriangles).1, hcount]
      exact word32_le32_of_lt (by decide) _
    have hshort := stlPoints_length_le hword (by decide) h
    have hlength : ∀ ts : List Corners, (flatten ts).length = 3 * ts.length := by
      intro ts
      induction ts with
      | nil => rfl
      | cons t ts ih =>
        show (flatten ts).length + 3 = 3 * (ts.length + 1)
        omega
    rw [List.length_map, hlength, hcount] at hshort
    omega

end FractalStudio.Assets
