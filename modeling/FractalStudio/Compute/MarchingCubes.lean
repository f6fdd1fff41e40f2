import FractalStudio.Compute.MarchingTables
import FractalStudio.Lib.Table
import Mathlib.Algebra.Order.Field.Basic

/-!
# Marching cubes

`marchingCubes` of `marching_cubes.cpp`: the walk over the cells of a scalar field, the cache of
vertices and the triangles that a cell emits. Comparison and interpolation are exact; an index is a
`uint32_t` and wraps; a read beyond a row of `triTable` or a slot of `ev` is `none`.
-/
namespace FractalStudio.Compute

/-- `Nx × Ny × Nz` samples, row-major. -/
structure McField (K : Type*) where
  Nx : Nat
  Ny : Nat
  Nz : Nat
  data : List K
  size : data.length = Nx * Ny * Nz

/-- The cell's base point and the edge's number within the cell. -/
structure VertKey where
  base : Vec3 Nat
  edgeId : Nat
deriving DecidableEq

structure McState (K : Type*) where
  mesh : Mesh K
  vertCache : Table VertKey Nat

variable {K : Type*}

def McField.dims (field : McField K) : Vec3 Nat := ⟨field.Nx, field.Ny, field.Nz⟩

def McState.init : McState K := ⟨⟨[], []⟩, Table.empty⟩

/-- The sample point of a cell's corner. -/
def cornerPoint (p : Vec3 Nat) (corner : Nat) : Vec3 Nat := p.plus (offset corner)

/-- The cells in the order of the three loops. -/
def cells (field : McField K) : List (Vec3 Nat) :=
  (List.range (field.Nz - 1)).flatMap fun z =>
    (List.range (field.Ny - 1)).flatMap fun y =>
      (List.range (field.Nx - 1)).map fun x => ⟨x, y, z⟩

variable [Field K] [LinearOrder K]

def McField.valueAt (field : McField K) (p : Vec3 Nat) : K :=
  field.data.getD (p.x + field.Nx * (p.y + field.Ny * p.z)) 0

/-- The values at the eight corners of a cell. -/
def cornerValues (field : McField K) (p : Vec3 Nat) : List K :=
  (List.range 8).map fun i => field.valueAt (cornerPoint p i)

/-- A bit for each corner below the iso value. -/
def cornerMask (iso : K) (c : List K) : Nat :=
  (List.range 8).foldl (fun mask i => if c.getD i 0 < iso then mask ||| 1 <<< i else mask) 0

/-- Where the surface meets an edge, as a part of the way from the first corner to the second. -/
def edgeParam (iso va vb : K) : K :=
  let t := if vb ≠ va then (iso - va) / (vb - va) else 1 / 2
  let t := if t < 0 then 0 else t
  if 1 < t then 1 else t

/-- One coordinate of a vertex on the edge between two sample points. -/
def edgeCoord (n a b : Nat) (t : K) : K :=
  (a + (b - a) * t) * (1 / (n - 1)) - 1 / 2

def edgePoint (field : McField K) (iso : K) (c : List K) (key : VertKey) : Vec3 K :=
  let a := cornerPoint key.base (cornersOf key.edgeId).1
  let b := cornerPoint key.base (cornersOf key.edgeId).2
  let t := edgeParam iso (c.getD (cornersOf key.edgeId).1 0) (c.getD (cornersOf key.edgeId).2 0)
  ⟨edgeCoord field.Nx a.x b.x t, edgeCoord field.Ny a.y b.y t, edgeCoord field.Nz a.z b.z t⟩

def getVertex (field : McField K) (iso : K) (c : List K) (key : VertKey) (s : McState K) :
    McState K × Nat :=
  match s.vertCache.find? key with
  | some idx => (s, idx)
  | none =>
    let idx := s.mesh.vertices.length % 2 ^ 32
    ({ mesh := { s.mesh with vertices := s.mesh.vertices ++ [edgePoint field iso c key] }
       vertCache := s.vertCache.upsert key idx fun _ => idx }, idx)

/-- One turn of the loop over the edges: the slot of a crossed edge is set to its vertex. -/
def edgeStep (field : McField K) (iso : K) (c : List K) (p : Vec3 Nat) (edges : Nat)
    (acc : McState K × List Nat) (e : Nat) : McState K × List Nat :=
  if edges.testBit e then
    let r := getVertex field iso c ⟨p, e⟩ acc.1
    (r.1, acc.2.set e r.2)
  else acc

/-- The slot of `ev` that an entry of `triTable` names. -/
def slot (ev : List Nat) (entry : Int) : Option Nat :=
  if 0 ≤ entry then ev[entry.toNat]? else none

/-- The indices that the walk over a row pushes. -/
def emitTriangles (ev : List Nat) : List Int → Option (List Nat)
  | a :: row =>
    if a = stop then some []
    else match row with
      | b :: c :: row => do
        let i ← slot ev a
        let j ← slot ev b
        let k ← slot ev c
        let rest ← emitTriangles ev row
        some (i :: j :: k :: rest)
      | _ => none
  | [] => none

@[simp] theorem emitTriangles_stop (ev : List Nat) (row : List Int) :
    emitTriangles ev (stop :: row) = some [] := by
  rw [emitTriangles.eq_def]
  exact if_pos rfl

/-- The state and the slots after the loop over the edges. -/
def walkEdges (field : McField K) (iso : K) (c : List K) (p : Vec3 Nat) (edges : Nat)
    (s : McState K) : McState K × List Nat :=
  (List.range 12).foldl (edgeStep field iso c p edges) (s, List.replicate 12 0)

def McState.pushIndices (s : McState K) (indices : List Nat) : McState K :=
  { s with mesh := { s.mesh with indices := s.mesh.indices ++ indices } }

def marchCell (field : McField K) (iso : K) (s : McState K) (p : Vec3 Nat) :
    Option (McState K) :=
  let c := cornerValues field p
  let mask := cornerMask iso c
  let edges := edgeTable.getD mask 0
  if edges = 0 then some s
  else
    let r := walkEdges field iso c p edges s
    (emitTriangles r.2 (triRow mask)).map r.1.pushIndices

/-- The walk over a list of cells. -/
def march (field : McField K) (iso : K) (s : McState K) (ps : List (Vec3 Nat)) :
    Option (McState K) :=
  ps.foldlM (marchCell field iso) s

def marchingCubes (field : McField K) (iso : K) : Option (Mesh K) :=
  if field.Nx < 2 ∨ field.Ny < 2 ∨ field.Nz < 2 then some ⟨[], []⟩
  else (march field iso .init (cells field)).map McState.mesh

/-! ## The mask and the cells -/

theorem testBit_foldl_or (below : Nat → Bool) (l : List Nat) (m i : Nat) :
    (l.foldl (fun mask i => if below i then mask ||| 1 <<< i else mask) m).testBit i =
      (m.testBit i || (decide (i ∈ l) && below i)) := by
  induction l generalizing m with
  | nil => simp
  | cons j l ih =>
    rw [List.foldl_cons, ih]
    by_cases hj : below j
    · rw [if_pos hj, Nat.testBit_or, Nat.one_shiftLeft, Nat.testBit_two_pow]
      by_cases hij : j = i
      · subst hij
        simp [hj]
      · have hji : i ≠ j := fun h => hij h.symm
        simp [hij, hji]
    · rw [if_neg hj]
      by_cases hij : i = j
      · subst hij
        simp [hj]
      · simp [hij]

theorem foldl_or_lt (below : Nat → Bool) (l : List Nat) (hl : ∀ i ∈ l, i < 8) (m : Nat)
    (hm : m < 2 ^ 8) :
    l.foldl (fun mask i => if below i then mask ||| 1 <<< i else mask) m < 2 ^ 8 := by
  induction l generalizing m with
  | nil => exact hm
  | cons j l ih =>
    rw [List.foldl_cons]
    refine ih (fun i hi => hl i (List.mem_cons_of_mem _ hi)) _ ?_
    split
    · rw [Nat.one_shiftLeft]
      exact Nat.or_lt_two_pow hm (Nat.pow_lt_pow_right (by decide) (hl j List.mem_cons_self))
    · exact hm

/-- The case of a cell. -/
def caseOf (field : McField K) (iso : K) (p : Vec3 Nat) : Nat :=
  cornerMask iso (cornerValues field p)

theorem cornerMask_eq (iso : K) (c : List K) :
    cornerMask iso c = (List.range 8).foldl
      (fun mask i => if decide (c.getD i 0 < iso) then mask ||| 1 <<< i else mask) 0 := by
  simp only [cornerMask, decide_eq_true_eq]

theorem caseOf_lt (field : McField K) (iso : K) (p : Vec3 Nat) : caseOf field iso p < 256 := by
  rw [caseOf, cornerMask_eq]
  exact foldl_or_lt _ _ (fun i hi => List.mem_range.mp hi) 0 (by decide)

omit [LinearOrder K] in
theorem cornerValues_getD (field : McField K) (p : Vec3 Nat) {i : Nat} (hi : i < 8) :
    (cornerValues field p).getD i 0 = field.valueAt (cornerPoint p i) := by
  simp [cornerValues, List.getD, hi]

theorem testBit_caseOf (field : McField K) (iso : K) (p : Vec3 Nat) {i : Nat} (hi : i < 8) :
    (caseOf field iso p).testBit i = decide (field.valueAt (cornerPoint p i) < iso) := by
  rw [caseOf, cornerMask_eq, testBit_foldl_or, Nat.zero_testBit, Bool.false_or,
    cornerValues_getD field p hi]
  simp only [List.mem_range, hi, decide_true, Bool.true_and]

variable {field : McField K} {p : Vec3 Nat}

omit [Field K] [LinearOrder K] in
theorem mem_cells :
    p ∈ cells field ↔ ∀ i, p.on i + 1 < field.dims.on i := by
  simp only [cells, List.mem_flatMap, List.mem_map, List.mem_range]
  constructor
  · intro h i
    obtain ⟨z, hz, y, hy, x, hx, heq⟩ := h
    subst heq
    cases i with
    | x => show x + 1 < field.Nx; omega
    | y => show y + 1 < field.Ny; omega
    | z => show z + 1 < field.Nz; omega
  · intro h
    have hx : p.x + 1 < field.Nx := h .x
    have hy : p.y + 1 < field.Ny := h .y
    have hz : p.z + 1 < field.Nz := h .z
    exact ⟨p.z, by omega, p.y, by omega, p.x, by omega, rfl⟩

omit [Field K] [LinearOrder K] in
theorem nodup_cells (field : McField K) : (cells field).Nodup := by
  have hrow (y z : Nat) : ((List.range (field.Nx - 1)).map fun x => (⟨x, y, z⟩ : Vec3 Nat)).Nodup :=
    List.nodup_range.map fun a b h => by simpa using h
  refine List.nodup_flatMap.mpr ⟨fun z _ => List.nodup_flatMap.mpr ⟨fun y _ => hrow y z, ?_⟩, ?_⟩
  · refine List.nodup_range.imp fun {y y'} hne => ?_
    rw [Function.onFun_apply, List.disjoint_left]
    intro p hp hp'
    obtain ⟨x, -, rfl⟩ := List.mem_map.mp hp
    obtain ⟨x', -, heq⟩ := List.mem_map.mp hp'
    exact hne (congrArg Vec3.y heq).symm
  · refine List.nodup_range.imp fun {z z'} hne => ?_
    rw [Function.onFun_apply, List.disjoint_left]
    intro p hp hp'
    obtain ⟨y, -, hp⟩ := List.mem_flatMap.mp hp
    obtain ⟨x, -, rfl⟩ := List.mem_map.mp hp
    obtain ⟨y', -, hp'⟩ := List.mem_flatMap.mp hp'
    obtain ⟨x', -, heq⟩ := List.mem_map.mp hp'
    exact hne (congrArg Vec3.z heq).symm

/-! ## What a run builds

The vertices are created in the order of the cells and, within a cell, of its crossed edges.
The cache lists their keys, so a state is described by the list of keys created so far.
-/

/-- The keys of the vertices that a walk over some cells creates, in order. -/
def created (field : McField K) (iso : K) (ps : List (Vec3 Nat)) : List VertKey :=
  ps.flatMap fun p => (crossedEdges (caseOf field iso p)).map fun e => ⟨p, e⟩

/-- The index of a key: its place among the created ones, in 32 bits. -/
def number (keys : List VertKey) (key : VertKey) : Nat := keys.idxOf key % 2 ^ 32

/-- The vertex of a key. -/
def pointOf (field : McField K) (iso : K) (key : VertKey) : Vec3 K :=
  edgePoint field iso (cornerValues field key.base) key

/-- The triangles of a cell as mesh indices. -/
def cellTriangles (field : McField K) (iso : K) (keys : List VertKey) (p : Vec3 Nat) :
    List (Nat × Nat × Nat) :=
  (caseTriangles (caseOf field iso p)).map fun t =>
    (number keys ⟨p, t.1⟩, number keys ⟨p, t.2.1⟩, number keys ⟨p, t.2.2⟩)

structure Cached (field : McField K) (iso : K) (keys : List VertKey) (s : McState K) : Prop where
  rows : s.vertCache.rows = keys.map fun key => (key, number keys key)
  vertices : s.mesh.vertices = keys.map (pointOf field iso)

variable {keys : List VertKey} {key : VertKey}

theorem number_append_left (more : List VertKey) (h : key ∈ keys) :
    number (keys ++ more) key = number keys key := by
  rw [number, List.idxOf_append_of_mem h, number]

theorem number_append_self (h : key ∉ keys) :
    number (keys ++ [key]) key = keys.length % 2 ^ 32 := by
  rw [number, List.idxOf_append_of_notMem h, List.idxOf_cons_self, Nat.add_zero]

variable {iso : K} {s : McState K}

theorem Cached.find?_none (hs : Cached field iso keys s) (h : key ∉ keys) :
    s.vertCache.find? key = none := by
  rw [Table.find?_eq_none_iff, hs.rows, List.map_map]
  simpa [Function.comp_def] using h

theorem getVertex_spec (hs : Cached field iso keys s) (h : key ∉ keys) :
    let r := getVertex field iso (cornerValues field key.base) key s
    Cached field iso (keys ++ [key]) r.1 ∧ r.1.mesh.indices = s.mesh.indices ∧
      r.2 = number (keys ++ [key]) key := by
  have hnone : s.vertCache.find? key = none := hs.find?_none h
  have hlen : s.mesh.vertices.length = keys.length := by rw [hs.vertices, List.length_map]
  simp only [getVertex, hnone]
  refine ⟨⟨?_, ?_⟩, trivial, ?_⟩
  · have hrows : (s.vertCache.upsert key (s.mesh.vertices.length % 2 ^ 32)
        fun _ => s.mesh.vertices.length % 2 ^ 32).rows =
          s.vertCache.rows ++ [(key, s.mesh.vertices.length % 2 ^ 32)] := by
      simp only [Table.upsert, Table.insert?, hnone, dif_pos, Option.getD_some]
    have hold : keys.map (fun k => (k, number (keys ++ [key]) k)) =
        keys.map fun k => (k, number keys k) :=
      List.map_congr_left fun k hk => by rw [number_append_left _ hk]
    rw [hrows, hs.rows, List.map_append, hold, List.map_singleton, number_append_self h, hlen]
  · rw [hs.vertices, List.map_append, List.map_singleton, pointOf]
  · rw [number_append_self h, hlen]

theorem foldl_edgeStep {edges : Nat} (crosses : Nat → Bool) (es : List Nat) (hes : es.Nodup)
    (hbit : ∀ e ∈ es, e < 12 ∧ edges.testBit e = crosses e) {ev : List Nat}
    (hs : Cached field iso keys s) (hev : ev.length = 12) (hnew : ∀ e ∈ es, ⟨p, e⟩ ∉ keys) :
    let keys' := keys ++ (es.filter crosses).map fun e => ⟨p, e⟩
    let r := es.foldl (edgeStep field iso (cornerValues field p) p edges) (s, ev)
    Cached field iso keys' r.1 ∧ r.1.mesh.indices = s.mesh.indices ∧ r.2.length = 12 ∧
      (∀ e ∈ es.filter crosses, r.2[e]? = some (number keys' ⟨p, e⟩)) ∧
      ∀ e, e ∉ es → r.2[e]? = ev[e]? := by
  induction es generalizing keys s ev with
  | nil => simpa using ⟨hs, hev⟩
  | cons e es ih =>
    obtain ⟨he, hes⟩ := List.nodup_cons.mp hes
    obtain ⟨hlt, hb⟩ := hbit e List.mem_cons_self
    have hbit' := fun a ha => hbit a (List.mem_cons_of_mem e ha)
    rw [List.foldl_cons, edgeStep, hb]
    by_cases hc : crosses e
    · obtain ⟨hs', hind, hidx⟩ := getVertex_spec hs (hnew e List.mem_cons_self)
      have hnew' : ∀ a ∈ es, (⟨p, a⟩ : VertKey) ∉ keys ++ [⟨p, e⟩] := by
        intro a ha hmem
        rcases List.mem_append.mp hmem with hmem | hmem
        · exact hnew a (List.mem_cons_of_mem e ha) hmem
        · obtain rfl : a = e := by simpa using hmem
          exact he ha
      obtain ⟨hc', hi', hl', hslot, hrest⟩ :=
        ih hes hbit' hs' ((List.length_set ..).trans hev) hnew'
      rw [if_pos hc, List.filter_cons_of_pos hc, List.map_cons]
      rw [List.append_assoc] at hc' hslot
      refine ⟨hc', hi'.trans hind, hl', ?_, ?_⟩
      · intro a ha
        rcases List.mem_cons.mp ha with rfl | ha
        · rw [hrest a he, List.getElem?_set_self (by omega), hidx]
          have hmem : (⟨p, a⟩ : VertKey) ∈ keys ++ [⟨p, a⟩] := by simp
          have hnum := number_append_left ((es.filter crosses).map fun e => ⟨p, e⟩) hmem
          rw [List.append_assoc] at hnum
          exact congrArg some hnum.symm
        · exact hslot a ha
      · intro a ha
        rw [hrest a (List.not_mem_of_not_mem_cons ha),
          List.getElem?_set_ne (Ne.symm (List.ne_of_not_mem_cons ha))]
    · obtain ⟨hc', hi', hl', hslot, hrest⟩ :=
        ih hes hbit' hs hev fun a ha => hnew a (List.mem_cons_of_mem e ha)
      rw [if_neg hc, List.filter_cons_of_neg hc]
      exact ⟨hc', hi', hl', hslot, fun a ha => hrest a (List.not_mem_of_not_mem_cons ha)⟩

theorem emitTriangles_some {ev : List Nat} (index : Nat → Nat) (row : List Int)
    {ts : List (Nat × Nat × Nat)} (hrow : rowTriangles row = some ts)
    (hev : ∀ t ∈ ts, ∀ e ∈ [t.1, t.2.1, t.2.2], ev[e]? = some (index e)) :
    emitTriangles ev row =
      some (flatten (ts.map fun t => (index t.1, index t.2.1, index t.2.2))) := by
  induction row using rowTriangles.induct generalizing ts with
  | case1 row =>
    obtain rfl : ts = [] := by simpa using hrow.symm
    simp [flatten]
  | case2 a ha b c row hpos ih =>
    simp only [rowTriangles, if_neg ha, if_pos hpos, Option.map_eq_some_iff] at hrow
    obtain ⟨us, hus, rfl⟩ := hrow
    have htail := ih hus fun t ht => hev t (List.mem_cons_of_mem _ ht)
    have hslots := hev _ List.mem_cons_self
    simp only [List.mem_cons, List.not_mem_nil, or_false, forall_eq_or_imp, forall_eq] at hslots
    obtain ⟨hsa, hsb, hsc⟩ := hslots
    obtain ⟨h0a, h0b, h0c⟩ := hpos
    simp only [emitTriangles, if_neg ha, slot, if_pos h0a, if_pos h0b, if_pos h0c, hsa, hsb, hsc,
      htail, Option.bind_eq_bind, Option.bind_some]
    rfl
  | case3 a ha b c row hpos =>
    simp only [rowTriangles, if_neg ha, if_neg hpos] at hrow
    cases hrow
  | case4 a row ha hshort =>
    rcases row with _ | ⟨b, _ | ⟨c, row⟩⟩
    · simp [rowTriangles, ha] at hrow
    · simp [rowTriangles, ha] at hrow
    · exact absurd rfl (hshort b c row)
  | case5 => cases hrow

theorem emitTriangles_none (ev : List Nat) (row : List Int) (hrow : rowTriangles row = none) :
    emitTriangles ev row = none := by
  induction row using rowTriangles.induct with
  | case1 row =>
    simp at hrow
  | case2 a ha b c row hpos ih =>
    simp only [rowTriangles, if_neg ha, if_pos hpos, Option.map_eq_none_iff] at hrow
    simp [emitTriangles, ha, ih hrow]
  | case3 a ha b c row hpos =>
    have hslot : slot ev a = none ∨ slot ev b = none ∨ slot ev c = none := by
      by_contra hcon
      simp only [slot, ite_eq_right_iff, not_or, not_forall] at hcon
      exact hpos ⟨hcon.1.1, hcon.2.1.1, hcon.2.2.1⟩
    rcases hslot with h | h | h <;> simp [emitTriangles, ha, h]
  | case4 a row ha hshort =>
    rcases row with _ | ⟨b, _ | ⟨c, row⟩⟩
    · simp [emitTriangles, ha]
    · simp [emitTriangles, ha]
    · exact absurd rfl (hshort b c row)
  | case5 => rfl

/-- A state that a walk over some cells has built. -/
structure Built (field : McField K) (iso : K) (ps : List (Vec3 Nat)) (s : McState K) : Prop where
  cached : Cached field iso (created field iso ps) s
  indices : s.mesh.indices =
    ps.flatMap fun p => flatten (cellTriangles field iso (created field iso ps) p)

theorem built_init (field : McField K) (iso : K) : Built field iso [] .init :=
  ⟨⟨rfl, rfl⟩, rfl⟩

theorem created_append (field : McField K) (iso : K) (ps qs : List (Vec3 Nat)) :
    created field iso (ps ++ qs) = created field iso ps ++ created field iso qs :=
  List.flatMap_append

variable {ps : List (Vec3 Nat)}

theorem mem_created :
    key ∈ created field iso ps ↔
      key.base ∈ ps ∧ key.edgeId ∈ crossedEdges (caseOf field iso key.base) := by
  obtain ⟨p, e⟩ := key
  simp only [created, List.mem_flatMap, List.mem_map, VertKey.mk.injEq]
  constructor
  · intro h
    obtain ⟨q, hq, a, ha, rfl, rfl⟩ := h
    exact ⟨hq, ha⟩
  · intro h
    exact ⟨p, h.1, e, h.2, rfl, rfl⟩

theorem cellTriangles_append (hp : p ∈ ps) (more : List VertKey) :
    cellTriangles field iso (created field iso ps ++ more) p =
      cellTriangles field iso (created field iso ps) p := by
  apply List.map_congr_left
  intro t ht
  obtain ⟨h1, h2, h3⟩ := caseTriangles_crossed _ (caseOf_lt field iso p) t ht
  have hkey (e : Nat) (he : e ∈ crossedEdges (caseOf field iso p)) :
      number (created field iso ps ++ more) ⟨p, e⟩ = number (created field iso ps) ⟨p, e⟩ :=
    number_append_left more (mem_created.mpr ⟨hp, he⟩)
  rw [hkey _ h1, hkey _ h2, hkey _ h3]

theorem marchCell_of_ne (s : McState K) (hedges : edgeTable.getD (caseOf field iso p) 0 ≠ 0) :
    marchCell field iso s p =
      let r := walkEdges field iso (cornerValues field p) p
        (edgeTable.getD (caseOf field iso p) 0) s
      (emitTriangles r.2 (triRow (caseOf field iso p))).map r.1.pushIndices :=
  if_neg hedges

theorem marchCell_none (s : McState K) (hend : caseOf field iso p ∈ unterminated) :
    marchCell field iso s p = none := by
  have hlt : caseOf field iso p < 256 := caseOf_lt field iso p
  have hedges : edgeTable.getD (caseOf field iso p) 0 ≠ 0 := fun h =>
    (edgeTable_eq_zero _ hlt h).2.1 hend
  rw [marchCell_of_ne s hedges]
  simp only [emitTriangles_none _ _ ((rowTriangles_triRow _ hlt).mpr hend), Option.map_none]

theorem created_snoc (field : McField K) (iso : K) (ps : List (Vec3 Nat)) (p : Vec3 Nat) :
    created field iso (ps ++ [p]) = created field iso ps ++
      (crossedEdges (caseOf field iso p)).map fun e => ⟨p, e⟩ := by
  rw [created_append, created, created, List.flatMap_singleton]

theorem walkEdges_spec (hs : Cached field iso (created field iso ps) s) (hp : p ∉ ps) :
    let r := walkEdges field iso (cornerValues field p) p
      (edgeTable.getD (caseOf field iso p) 0) s
    Cached field iso (created field iso (ps ++ [p])) r.1 ∧ r.1.mesh.indices = s.mesh.indices ∧
      ∀ e ∈ crossedEdges (caseOf field iso p),
        r.2[e]? = some (number (created field iso (ps ++ [p])) ⟨p, e⟩) := by
  have hnew : ∀ e ∈ List.range 12, (⟨p, e⟩ : VertKey) ∉ created field iso ps := fun e _ hmem =>
    hp (mem_created.mp hmem).1
  obtain ⟨hc, hi, -, hslot, -⟩ := foldl_edgeStep (crossed (caseOf field iso p)) (List.range 12)
    List.nodup_range (fun e he => ⟨List.mem_range.mp he,
      edgeTable_testBit _ (caseOf_lt field iso p) e (List.mem_range.mp he)⟩)
    hs (List.length_replicate : (List.replicate 12 0).length = 12) hnew
  rw [created_snoc]
  exact ⟨hc, hi, hslot⟩

theorem emitTriangles_case {ev : List Nat} (hend : caseOf field iso p ∉ unterminated)
    (hslot : ∀ e ∈ crossedEdges (caseOf field iso p), ev[e]? = some (number keys ⟨p, e⟩)) :
    emitTriangles ev (triRow (caseOf field iso p)) =
      some (flatten (cellTriangles field iso keys p)) := by
  have hlt : caseOf field iso p < 256 := caseOf_lt field iso p
  obtain ⟨ts, hts⟩ := Option.ne_none_iff_exists'.mp
    fun h => hend ((rowTriangles_triRow _ hlt).mp h)
  have hcase : caseTriangles (caseOf field iso p) = ts := by
    rw [caseTriangles, hts, Option.getD_some]
  rw [cellTriangles, hcase]
  apply emitTriangles_some (fun e => number keys ⟨p, e⟩) _ hts
  intro t ht e he
  obtain ⟨h1, h2, h3⟩ := caseTriangles_crossed _ hlt t (hcase ▸ ht)
  simp only [List.mem_cons, List.not_mem_nil, or_false] at he
  rcases he with rfl | rfl | rfl
  · exact hslot _ h1
  · exact hslot _ h2
  · exact hslot _ h3

theorem marchCell_some (hs : Built field iso ps s) (hp : p ∉ ps)
    (hend : caseOf field iso p ∉ unterminated) :
    ∃ s', marchCell field iso s p = some s' ∧ Built field iso (ps ++ [p]) s' ∧
      s'.mesh.indices = s.mesh.indices ++
        flatten (cellTriangles field iso (created field iso (ps ++ [p])) p) := by
  have hold : ps.flatMap (fun q =>
      flatten (cellTriangles field iso (created field iso (ps ++ [p])) q)) = s.mesh.indices := by
    rw [hs.indices, created_snoc]
    exact List.flatMap_congr fun q hq => by rw [cellTriangles_append hq]
  have hbuilt (s' : McState K) (hc : Cached field iso (created field iso (ps ++ [p])) s')
      (hi : s'.mesh.indices = s.mesh.indices ++
        flatten (cellTriangles field iso (created field iso (ps ++ [p])) p)) :
      Built field iso (ps ++ [p]) s' :=
    ⟨hc, by rw [hi, List.flatMap_append, hold, List.flatMap_singleton]⟩
  by_cases hedges : edgeTable.getD (caseOf field iso p) 0 = 0
  · obtain ⟨hnone, -, hempty⟩ := edgeTable_eq_zero _ (caseOf_lt field iso p) hedges
    have hi : s.mesh.indices = s.mesh.indices ++
        flatten (cellTriangles field iso (created field iso (ps ++ [p])) p) := by
      simp [cellTriangles, hempty, flatten]
    refine ⟨s, if_pos hedges, hbuilt s ?_ hi, hi⟩
    rw [created_snoc, hnone, List.map_nil, List.append_nil]
    exact hs.cached
  · obtain ⟨hc, hi, hslot⟩ := walkEdges_spec hs.cached hp
    generalize hr : walkEdges field iso (cornerValues field p) p
      (edgeTable.getD (caseOf field iso p) 0) s = r at hc hi hslot
    let pushed := r.1.pushIndices
      (flatten (cellTriangles field iso (created field iso (ps ++ [p])) p))
    have hpush : pushed.mesh.indices = s.mesh.indices ++
        flatten (cellTriangles field iso (created field iso (ps ++ [p])) p) := by
      show r.1.mesh.indices ++ _ = _
      rw [hi]
    refine ⟨pushed, ?_, hbuilt pushed ⟨hc.rows, hc.vertices⟩ hpush, hpush⟩
    rw [marchCell_of_ne s hedges, hr]
    simp only [emitTriangles_case hend hslot, Option.map_some, pushed]

theorem march_built (hs : Built field iso ps s) (qs : List (Vec3 Nat)) (hnd : (ps ++ qs).Nodup)
    (hend : ∀ p ∈ qs, caseOf field iso p ∉ unterminated) :
    ∃ s', march field iso s qs = some s' ∧ Built field iso (ps ++ qs) s' := by
  induction qs generalizing ps s with
  | nil => exact ⟨s, rfl, by rwa [List.append_nil]⟩
  | cons q qs ih =>
    have hq : q ∉ ps := fun h =>
      (List.disjoint_of_nodup_append hnd) h List.mem_cons_self
    obtain ⟨s₁, hstep, hb, -⟩ := marchCell_some hs hq (hend q List.mem_cons_self)
    obtain ⟨s₂, hrun, hb₂⟩ := ih hb (by rwa [List.append_assoc])
      fun p hp => hend p (List.mem_cons_of_mem q hp)
    refine ⟨s₂, ?_, by rwa [List.append_assoc] at hb₂⟩
    rw [march, List.foldlM_cons, hstep]
    exact hrun

theorem march_none (s : McState K) {qs : List (Vec3 Nat)}
    (hend : ∃ p ∈ qs, caseOf field iso p ∈ unterminated) : march field iso s qs = none := by
  induction qs generalizing s with
  | nil =>
    obtain ⟨p, hp, -⟩ := hend
    cases hp
  | cons q qs ih =>
    rw [march, List.foldlM_cons]
    cases hstep : marchCell field iso s q with
    | none => rfl
    | some s' =>
      obtain ⟨p, hp, hpe⟩ := hend
      rcases List.mem_cons.mp hp with rfl | hp
      · rw [marchCell_none s hpe] at hstep
        cases hstep
      · exact ih s' ⟨p, hp, hpe⟩

end FractalStudio.Compute
