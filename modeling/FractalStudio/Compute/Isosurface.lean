import FractalStudio.Compute.MarchingCubes
import Mathlib.Algebra.Order.Field.Rat
import Mathlib.Tactic.Ring
import Mathlib.Tactic.FieldSimp

/-!
# The extracted surface

Two properties of marching cubes over a whole field fail in general. A triangle is genuine when its
corners are vertices of its own cell on crossed edges; this needs a field that never meets one of
the four rows without an end, and few enough crossings for a 32-bit index. The surface is closed
when crossing grid edges have one vertex each and inner triangle edges are paired; the cache key
names the cell, so this needs crossing edges that belong to one cell each.
-/
namespace FractalStudio.Compute

variable {K : Type*} [Field K] [LinearOrder K]

/-- How many pairs of a cell and a crossed edge a field has. -/
def crossings (field : McField K) (iso : K) : Nat :=
  ((cells field).map fun p => (crossedEdges (caseOf field iso p)).length).sum

/-- No cell meets a row without an end. -/
def Terminated (field : McField K) (iso : K) : Prop :=
  ∀ p ∈ cells field, caseOf field iso p ∉ unterminated

theorem length_created (field : McField K) (iso : K) :
    (created field iso (cells field)).length = crossings field iso := by
  simp only [created, List.length_flatMap, List.length_map, crossings]

variable {ps : List (Vec3 Nat)}

theorem nodup_created (field : McField K) (iso : K) (hps : ps.Nodup) :
    (created field iso ps).Nodup := by
  refine List.nodup_flatMap.mpr ⟨fun p _ => ?_, hps.imp fun {p q} hne => ?_⟩
  · refine (List.nodup_range.filter _).map ?_
    intro a b hab
    exact (VertKey.mk.inj hab).2
  · rw [Function.onFun_apply, List.disjoint_left]
    intro key hp hq
    obtain ⟨a, -, rfl⟩ := List.mem_map.mp hp
    obtain ⟨b, -, hab⟩ := List.mem_map.mp hq
    exact hne (VertKey.mk.inj hab).1.symm

/-- The keys in the cache, in the order in which their vertices were created. -/
def McState.keys (s : McState K) : List VertKey := s.vertCache.rows.map Prod.fst

variable {keys : List VertKey} {s : McState K}

theorem Cached.keys_eq {field : McField K} {iso : K} (hs : Cached field iso keys s) :
    s.keys = keys := by
  simp [McState.keys, hs.rows, List.map_map, Function.comp_def]

/-! ## Genuine triangles -/

/-- An edge of a cell whose corner values lie on opposite sides of iso. -/
def CrossedIn (field : McField K) (iso : K) (p : Vec3 Nat) (e : Nat) : Prop :=
  e < 12 ∧ ¬ (field.valueAt (cornerPoint p (cornersOf e).1) < iso ↔
    field.valueAt (cornerPoint p (cornersOf e).2) < iso)

/-- Vertex `v` is the one that was created in a cell for one of its crossed edges. -/
def CreatedIn (field : McField K) (iso : K) (s : McState K) (p : Vec3 Nat) (v : Nat) : Prop :=
  ∃ e, CrossedIn field iso p e ∧ s.keys[v]? = some ⟨p, e⟩ ∧
    s.mesh.vertices[v]? = some (pointOf field iso ⟨p, e⟩)

/-- The triangles that a cell's step adds have their corners in that cell. -/
def GenuineCell (field : McField K) (iso : K) (p : Vec3 Nat) (s s' : McState K) : Prop :=
  ∃ ts, s'.mesh.indices = s.mesh.indices ++ flatten ts ∧
    ∀ t ∈ ts, ∀ v ∈ [t.1, t.2.1, t.2.2], CreatedIn field iso s' p v

/-- Every cell's walk ends and adds genuine triangles only. -/
def Genuine (field : McField K) (iso : K) : Prop :=
  ∀ pre p post, cells field = pre ++ p :: post →
    ∃ s s', march field iso .init pre = some s ∧ marchCell field iso s p = some s' ∧
      GenuineCell field iso p s s'

variable {e : Nat}

theorem mem_crossedEdges {field : McField K} {iso : K} {p : Vec3 Nat} :
    e ∈ crossedEdges (caseOf field iso p) ↔ CrossedIn field iso p e := by
  have hcorner : ∀ e < 12, (cornersOf e).1 < 8 ∧ (cornersOf e).2 < 8 := by decide
  rw [crossedEdges, List.mem_filter, List.mem_range, CrossedIn]
  refine and_congr_right fun he => ?_
  show (_ != _) = true ↔ _
  rw [bne_iff_ne, ne_eq]
  refine not_congr ?_
  show (caseOf field iso p).testBit (cornersOf e).1 =
    (caseOf field iso p).testBit (cornersOf e).2 ↔ _
  rw [testBit_caseOf field iso p (hcorner e he).1, testBit_caseOf field iso p (hcorner e he).2,
    decide_eq_decide]

theorem Genuine.terminated {field : McField K} {iso : K} (h : Genuine field iso) :
    Terminated field iso := by
  intro p hp hbad
  obtain ⟨pre, post, hcells⟩ := List.append_of_mem hp
  obtain ⟨s, s', -, hstep, -⟩ := h pre p post hcells
  rw [marchCell_none s hbad] at hstep
  cases hstep

theorem cell_step {field : McField K} {iso : K} (hend : Terminated field iso)
    {pre post : List (Vec3 Nat)} {p : Vec3 Nat} (hcells : cells field = pre ++ p :: post) :
    ∃ s s', march field iso .init pre = some s ∧ marchCell field iso s p = some s' ∧
      Built field iso (pre ++ [p]) s' ∧ s'.mesh.indices = s.mesh.indices ++
        flatten (cellTriangles field iso (created field iso (pre ++ [p])) p) := by
  have hnd := nodup_cells field
  rw [hcells] at hnd
  obtain ⟨s, hrun, hs⟩ := march_built (built_init field iso) pre
    (by simpa using hnd.sublist (List.sublist_append_left _ _))
    fun q hq => hend q (hcells ▸ List.mem_append_left _ hq)
  have hp : p ∉ pre := fun h => List.disjoint_of_nodup_append hnd h List.mem_cons_self
  obtain ⟨s', hstep, hs', hi⟩ := marchCell_some hs hp
    (hend p (hcells ▸ List.mem_append_right _ List.mem_cons_self))
  exact ⟨s, s', hrun, hstep, hs', hi⟩

theorem flatten_injective {α : Type*} {ts us : List (α × α × α)} (h : flatten ts = flatten us) :
    ts = us := by
  rw [← triples_flatten ts, h, triples_flatten]

theorem number_of_length_le (hlen : keys.length ≤ 2 ^ 32) {key : VertKey} (h : key ∈ keys) :
    number keys key = keys.idxOf key := by
  have hlt : keys.idxOf key < keys.length := List.idxOf_lt_length_of_mem h
  exact Nat.mod_eq_of_lt (by omega)

theorem getElem?_number {field : McField K} {iso : K} (hs : Built field iso ps s)
    (hlen : (created field iso ps).length ≤ 2 ^ 32) {p : Vec3 Nat} (hp : p ∈ ps)
    (he : e ∈ crossedEdges (caseOf field iso p)) :
    s.keys[number (created field iso ps) ⟨p, e⟩]? = some ⟨p, e⟩ ∧
      s.mesh.vertices[number (created field iso ps) ⟨p, e⟩]? = some (pointOf field iso ⟨p, e⟩) := by
  have hmem : (⟨p, e⟩ : VertKey) ∈ created field iso ps := mem_created.mpr ⟨hp, he⟩
  have hget : (created field iso ps)[(created field iso ps).idxOf ⟨p, e⟩]? = some ⟨p, e⟩ :=
    List.getElem?_idxOf hmem
  rw [number_of_length_le hlen hmem, hs.cached.keys_eq, hs.cached.vertices, List.getElem?_map, hget]
  exact ⟨rfl, rfl⟩

variable {t : Nat × Nat × Nat}

theorem mem_crossedEdges_of_corner {field : McField K} {iso : K} {p : Vec3 Nat}
    (ht : t ∈ caseTriangles (caseOf field iso p)) (he : e ∈ [t.1, t.2.1, t.2.2]) :
    e ∈ crossedEdges (caseOf field iso p) := by
  obtain ⟨h1, h2, h3⟩ := caseTriangles_crossed _ (caseOf_lt field iso p) t ht
  simp only [List.mem_cons, List.not_mem_nil, or_false] at he
  rcases he with rfl | rfl | rfl
  · exact h1
  · exact h2
  · exact h3

theorem genuine_of_terminated {field : McField K} {iso : K} (hend : Terminated field iso)
    (hlen : crossings field iso ≤ 2 ^ 32) : Genuine field iso := by
  intro pre p post hcells
  obtain ⟨s, s', hrun, hstep, hs', hi⟩ := cell_step hend hcells
  refine ⟨s, s', hrun, hstep, _, hi, ?_⟩
  have hlen' : (created field iso (pre ++ [p])).length ≤ 2 ^ 32 := by
    have hsplit : cells field = (pre ++ [p]) ++ post := by rw [hcells, List.append_assoc]; rfl
    rw [← length_created, hsplit, created_append, List.length_append] at hlen
    omega
  intro t ht v hv
  obtain ⟨u, hu, rfl⟩ := List.mem_map.mp ht
  obtain ⟨e, he, rfl⟩ : ∃ e ∈ [u.1, u.2.1, u.2.2],
      v = number (created field iso (pre ++ [p])) ⟨p, e⟩ := by simpa using hv
  have hcross := mem_crossedEdges_of_corner hu he
  obtain ⟨hkey, hvertex⟩ :=
    getElem?_number hs' hlen' (List.mem_append_right _ List.mem_cons_self) hcross
  exact ⟨e, mem_crossedEdges.mp hcross, hkey, hvertex⟩

theorem length_crossedEdges_le (mask : Nat) : (crossedEdges mask).length ≤ 12 := by
  have h := List.length_filter_le (crossed mask) (List.range 12)
  rwa [List.length_range] at h

theorem number_mem_cellTriangles {field : McField K} {iso : K} {p : Vec3 Nat}
    (hend : caseOf field iso p ∉ unterminated) (he : e ∈ crossedEdges (caseOf field iso p))
    (keys : List VertKey) :
    ∃ t ∈ cellTriangles field iso keys p, number keys ⟨p, e⟩ ∈ [t.1, t.2.1, t.2.2] := by
  obtain ⟨u, hu, hc⟩ := crossed_mem_caseTriangles _ (caseOf_lt field iso p) hend e he
  refine ⟨_, List.mem_map.mpr ⟨u, hu, rfl⟩, ?_⟩
  rcases hc with rfl | rfl | rfl <;> simp

/-- The vertex after the last that an index can number is used under index 0, the first of the field. -/
theorem Genuine.crossings_le {field : McField K} {iso : K} (h : Genuine field iso) :
    crossings field iso ≤ 2 ^ 32 := by
  by_contra hlt
  have hend : Terminated field iso := h.terminated
  have hnd : (created field iso (cells field)).Nodup :=
    nodup_created field iso (nodup_cells field)
  have hlong : 2 ^ 32 < (created field iso (cells field)).length := by
    rw [length_created]; omega
  obtain ⟨⟨p, e⟩, hkey⟩ : ∃ key, (created field iso (cells field))[2 ^ 32]? = some key :=
    ⟨_, List.getElem?_eq_getElem hlong⟩
  obtain ⟨hp, he⟩ := mem_created.mp (List.mem_of_getElem? hkey)
  obtain ⟨pre, post, hcells⟩ := List.append_of_mem hp
  obtain ⟨s, s', hrun, hstep, ts, hts, hgen⟩ := h pre p post hcells
  obtain ⟨r, r', hrun', hstep', hr', hi⟩ := cell_step hend hcells
  obtain rfl : s = r := Option.some.inj (hrun.symm.trans hrun')
  obtain rfl : s' = r' := Option.some.inj (hstep.symm.trans hstep')
  have hts' : ts = cellTriangles field iso (created field iso (pre ++ [p])) p :=
    flatten_injective (List.append_cancel_left (hts.symm.trans hi))
  have hmem : (⟨p, e⟩ : VertKey) ∈ created field iso (pre ++ [p]) :=
    mem_created.mpr ⟨List.mem_append_right _ List.mem_cons_self, he⟩
  have hidx : (created field iso (pre ++ [p])).idxOf ⟨p, e⟩ = 2 ^ 32 := by
    have hsplit : cells field = (pre ++ [p]) ++ post := by rw [hcells, List.append_assoc]; rfl
    have hplace : (created field iso (cells field)).idxOf ⟨p, e⟩ = 2 ^ 32 := by
      obtain ⟨hi, hget⟩ := List.getElem?_eq_some_iff.mp hkey
      rw [← hget]
      exact hnd.idxOf_getElem (2 ^ 32) hi
    rwa [hsplit, created_append, List.idxOf_append_of_mem hmem] at hplace
  obtain ⟨t, ht, hv⟩ := number_mem_cellTriangles (hend p hp) he (created field iso (pre ++ [p]))
  rw [number, hidx, Nat.mod_self] at hv
  obtain ⟨e', -, hfirst, -⟩ := hgen t (hts' ▸ ht) 0 hv
  rw [hr'.cached.keys_eq, created_snoc] at hfirst
  have hnone : created field iso pre = [] := by
    rcases hc : created field iso pre with _ | ⟨key, rest⟩
    · rfl
    · rw [hc] at hfirst
      have hbase : key.base ∈ pre := (mem_created.mp (hc ▸ List.mem_cons_self)).1
      obtain rfl : key = ⟨p, e'⟩ := by simpa using hfirst
      have hnd := nodup_cells field
      rw [hcells] at hnd
      exact absurd List.mem_cons_self (List.disjoint_of_nodup_append hnd hbase)
  have hshort := List.idxOf_lt_length_of_mem hmem
  rw [hidx, created_snoc, hnone, List.nil_append, List.length_map] at hshort
  have hle := length_crossedEdges_le (caseOf field iso p)
  omega

/-- Every triangle that marching cubes emits is genuine exactly when no cell meets one of the four
rows without an end and the crossings can be numbered in 32 bits. -/
theorem genuine_iff (field : McField K) (iso : K) :
    Genuine field iso ↔ Terminated field iso ∧ crossings field iso ≤ 2 ^ 32 :=
  ⟨fun h => ⟨h.terminated, h.crossings_le⟩, fun h => genuine_of_terminated h.1 h.2⟩

/-- One cell whose corners 1, 3, 4, 5 and 6 are below zero. -/
def saddleField : McField ℚ := ⟨2, 2, 2, [1, -1, -1, 1, -1, -1, 1, -1], rfl⟩

/-- The walk of that cell does not end within its row. -/
theorem saddleField_not_genuine :
    (∀ s, marchCell saddleField 0 s ⟨0, 0, 0⟩ = none) ∧ ¬ Genuine saddleField 0 := by
  have hcase : caseOf saddleField 0 ⟨0, 0, 0⟩ ∈ unterminated := by decide +kernel
  have hcell : (⟨0, 0, 0⟩ : Vec3 Nat) ∈ cells saddleField := by decide
  exact ⟨fun s => marchCell_none s hcase, fun h => h.terminated _ hcell hcase⟩

/-! ## Grid edges -/

/-- A grid edge: a sample and the axis on which its neighbour comes next. -/
structure GridEdge where
  low : Vec3 Nat
  axis : Axis
deriving DecidableEq

def nextOn (p : Vec3 Nat) : Axis → Vec3 Nat
  | .x => ⟨p.x + 1, p.y, p.z⟩
  | .y => ⟨p.x, p.y + 1, p.z⟩
  | .z => ⟨p.x, p.y, p.z + 1⟩

def GridEdge.high (g : GridEdge) : Vec3 Nat := nextOn g.low g.axis

/-- Both ends are samples of the field. -/
def GridEdge.InGrid (field : McField K) (g : GridEdge) : Prop :=
  ∀ i, g.high.on i < field.dims.on i

/-- The ends lie on opposite sides of iso. -/
def GridEdge.Crosses (field : McField K) (iso : K) (g : GridEdge) : Prop :=
  ¬ (field.valueAt g.low < iso ↔ field.valueAt g.high < iso)

/-- The axis along which an edge of a cell runs. -/
def edgeAxis (e : Nat) : Axis := if 8 ≤ e then .z else if e % 2 = 0 then .x else .y

/-- The lower end of an edge, from the cell's base point. -/
def lowOffset (e : Nat) : Vec3 Nat :=
  let a := offset (cornersOf e).1
  let b := offset (cornersOf e).2
  ⟨min a.x b.x, min a.y b.y, min a.z b.z⟩

def gridEdge (key : VertKey) : GridEdge :=
  ⟨key.base.plus (lowOffset key.edgeId), edgeAxis key.edgeId⟩

theorem nextOn_plus (p o : Vec3 Nat) (i : Axis) : nextOn (p.plus o) i = p.plus (nextOn o i) := by
  cases i <;> rfl

theorem corners_gridEdge (p : Vec3 Nat) : ∀ e < 12,
    let g := gridEdge ⟨p, e⟩
    (cornerPoint p (cornersOf e).1 = g.low ∧ cornerPoint p (cornersOf e).2 = g.high) ∨
      (cornerPoint p (cornersOf e).1 = g.high ∧ cornerPoint p (cornersOf e).2 = g.low) := by
  have hoff : ∀ e < 12,
      (offset (cornersOf e).1 = lowOffset e ∧
        offset (cornersOf e).2 = nextOn (lowOffset e) (edgeAxis e)) ∨
      (offset (cornersOf e).1 = nextOn (lowOffset e) (edgeAxis e) ∧
        offset (cornersOf e).2 = lowOffset e) := by decide
  intro e he
  simp only [cornerPoint, GridEdge.high, gridEdge, nextOn_plus]
  rcases hoff e he with ⟨ha, hb⟩ | ⟨ha, hb⟩
  · exact .inl ⟨by rw [ha], by rw [hb]⟩
  · exact .inr ⟨by rw [ha], by rw [hb]⟩

theorem crossedIn_iff {field : McField K} {iso : K} {p : Vec3 Nat} :
    CrossedIn field iso p e ↔ e < 12 ∧ (gridEdge ⟨p, e⟩).Crosses field iso := by
  refine and_congr_right fun he => not_congr ?_
  rcases corners_gridEdge p e he with ⟨ha, hb⟩ | ⟨ha, hb⟩
  · rw [ha, hb]
  · rw [ha, hb]
    exact Iff.comm

omit [Field K] [LinearOrder K] in
theorem gridEdge_inGrid {field : McField K} {p : Vec3 Nat} (hp : p ∈ cells field) (he : e < 12) :
    (gridEdge ⟨p, e⟩).InGrid field := by
  have hcell := mem_cells.mp hp
  have hoff : ∀ e < 12, ∀ i ∈ Axis.all, (nextOn (lowOffset e) (edgeAxis e)).on i ≤ 1 := by decide
  intro i
  have hi := hoff e he i (Axis.mem_all i)
  have hpi := hcell i
  show (nextOn (p.plus (lowOffset e)) (edgeAxis e)).on i < field.dims.on i
  rw [nextOn_plus, Vec3.on_plus]
  omega

theorem gridEdge_injective (p : Vec3 Nat) {a b : Nat} (ha : a < 12) (hb : b < 12)
    (h : gridEdge ⟨p, a⟩ = gridEdge ⟨p, b⟩) : a = b := by
  have hoff : ∀ a < 12, ∀ b < 12, lowOffset a = lowOffset b → edgeAxis a = edgeAxis b → a = b := by
    decide
  obtain ⟨hlow, haxis⟩ := GridEdge.mk.inj h
  refine hoff a ha b hb (Vec3.ext_on fun i => ?_) haxis
  have hi := congrArg (fun v : Vec3 Nat => v.on i) hlow
  simp only [Vec3.on_plus] at hi
  omega

/-! ## One vertex for each crossing edge -/

def cellsWith (field : McField K) (g : GridEdge) : List (Vec3 Nat) :=
  (cells field).filter fun p => (List.range 12).any fun e => gridEdge ⟨p, e⟩ = g

def contributed (s : McState K) (g : GridEdge) : List (Vec3 K) :=
  ((s.keys.zip s.mesh.vertices).filter fun kv => gridEdge kv.1 = g).map Prod.snd

theorem length_contributed {field : McField K} {iso : K} (hs : Cached field iso keys s)
    (g : GridEdge) :
    (contributed s g).length = keys.countP fun key => gridEdge key = g := by
  rw [contributed, List.length_map, hs.keys_eq, hs.vertices, ← List.countP_eq_length_filter]
  clear hs
  induction keys with
  | nil => rfl
  | cons key keys ih =>
    rw [List.map_cons, List.zip_cons_cons, List.countP_cons, List.countP_cons, ih]

theorem countP_crossedEdges {field : McField K} {iso : K} {p : Vec3 Nat} {g : GridEdge}
    (hg : g.Crosses field iso) :
    ((crossedEdges (caseOf field iso p)).map fun e => (⟨p, e⟩ : VertKey)).countP
        (fun key => gridEdge key = g) =
      if (List.range 12).any fun e => gridEdge ⟨p, e⟩ = g then 1 else 0 := by
  rw [List.countP_map, List.countP_eq_length_filter]
  have hle : ((crossedEdges (caseOf field iso p)).filter
      ((fun key => decide (gridEdge key = g)) ∘ fun e => ⟨p, e⟩)).length ≤ 1 := by
    apply Table.length_le_one ((List.nodup_range.filter _).filter _)
    intro a ha b hb
    obtain ⟨hac, hag⟩ := List.mem_filter.mp ha
    obtain ⟨hbc, hbg⟩ := List.mem_filter.mp hb
    have heq : gridEdge ⟨p, a⟩ = gridEdge ⟨p, b⟩ :=
      (of_decide_eq_true hag).trans (of_decide_eq_true hbg).symm
    exact gridEdge_injective p (mem_crossedEdges.mp hac).1 (mem_crossedEdges.mp hbc).1 heq
  split
  · next hany =>
    obtain ⟨e, he, heq⟩ := List.any_eq_true.mp hany
    have hedge : gridEdge ⟨p, e⟩ = g := of_decide_eq_true heq
    have hmem : e ∈ (crossedEdges (caseOf field iso p)).filter
        ((fun key => decide (gridEdge key = g)) ∘ fun e => ⟨p, e⟩) := by
      refine List.mem_filter.mpr ⟨mem_crossedEdges.mpr (crossedIn_iff.mpr ?_), heq⟩
      exact ⟨List.mem_range.mp he, hedge ▸ hg⟩
    have hpos := List.length_pos_of_mem hmem
    omega
  · next hany =>
    rw [List.length_eq_zero_iff, List.filter_eq_nil_iff]
    intro e he heq
    exact hany (List.any_eq_true.mpr ⟨e, List.mem_range.mpr (mem_crossedEdges.mp he).1, heq⟩)

theorem countP_created {field : McField K} {iso : K} {g : GridEdge} (hg : g.Crosses field iso) :
    (created field iso (cells field)).countP (fun key => gridEdge key = g) =
      (cellsWith field g).length := by
  rw [created, cellsWith, ← List.countP_eq_length_filter]
  induction cells field with
  | nil => rfl
  | cons p ps ih =>
    rw [List.flatMap_cons, List.countP_append, List.countP_cons, ih, countP_crossedEdges hg]
    exact Nat.add_comm _ _

/-! ## Paired triangle edges -/

/-- Both vertices lie in one face of the unit cube that the grid is scaled to. -/
def OnBoundary (mesh : Mesh K) (v w : Nat) : Prop :=
  ∃ a b i, mesh.vertices[v]? = some a ∧ mesh.vertices[w]? = some b ∧
    ((a.on i = -1 / 2 ∧ b.on i = -1 / 2) ∨ (a.on i = 1 / 2 ∧ b.on i = 1 / 2))

/-- Each crossing grid edge has one vertex; each triangle edge that does not lie on the boundary
is in exactly two triangles, with opposite directions. -/
def ClosedSurface (field : McField K) (iso : K) : Prop :=
  ∃ s, march field iso .init (cells field) = some s ∧ marchingCubes field iso = some s.mesh ∧
    (∀ g : GridEdge, g.InGrid field → g.Crosses field iso → (contributed s g).length = 1) ∧
    ∀ t ∈ s.mesh.triangles, ∀ e ∈ sides t, ¬ OnBoundary s.mesh e.1 e.2 →
      PairedEdge s.mesh.triangles e.1 e.2

/-- No cell meets a row without an end, and every crossing edge belongs to one cell only. -/
def Unshared (field : McField K) (iso : K) : Prop :=
  Terminated field iso ∧
    ∀ g : GridEdge, g.InGrid field → g.Crosses field iso → (cellsWith field g).length = 1

omit [Field K] [LinearOrder K] in
theorem cells_eq_nil {field : McField K} (h : field.Nx < 2 ∨ field.Ny < 2 ∨ field.Nz < 2) :
    cells field = [] := by
  rw [List.eq_nil_iff_forall_not_mem]
  intro p hp
  have hcell := mem_cells.mp hp
  have hx : p.x + 1 < field.Nx := hcell .x
  have hy : p.y + 1 < field.Ny := hcell .y
  have hz : p.z + 1 < field.Nz := hcell .z
  omega

theorem marchingCubes_eq (field : McField K) (iso : K) :
    marchingCubes field iso = (march field iso .init (cells field)).map McState.mesh := by
  rw [marchingCubes]
  split
  · next h =>
    rw [cells_eq_nil h]
    rfl
  · rfl

theorem built_of_terminated {field : McField K} {iso : K} (hend : Terminated field iso) :
    ∃ s, march field iso .init (cells field) = some s ∧ Built field iso (cells field) s := by
  simpa using march_built (built_init field iso) (cells field)
    (by simpa using nodup_cells field) hend

theorem ClosedSurface.unshared {field : McField K} {iso : K} (h : ClosedSurface field iso) :
    Unshared field iso := by
  obtain ⟨s, hrun, -, hone, -⟩ := h
  have hend : Terminated field iso := by
    intro p hp hbad
    rw [march_none _ ⟨p, hp, hbad⟩] at hrun
    cases hrun
  refine ⟨hend, fun g hin hg => ?_⟩
  obtain ⟨s', hrun', hs'⟩ := built_of_terminated hend
  obtain rfl : s = s' := Option.some.inj (hrun.symm.trans hrun')
  rw [← countP_created hg, ← length_contributed hs'.cached]
  exact hone g hin hg

theorem triangles_eq {field : McField K} {iso : K} (hs : Built field iso ps s) :
    s.mesh.triangles = ps.flatMap (cellTriangles field iso (created field iso ps)) := by
  have hflat : (ps.flatMap fun p => flatten (cellTriangles field iso (created field iso ps) p)) =
      flatten (ps.flatMap (cellTriangles field iso (created field iso ps))) := by
    simp only [flatten, List.flatMap_assoc]
  rw [Mesh.triangles, hs.indices, hflat, triples_flatten]

theorem countP_flatMap_eq {α β : Type*} {l : List α} (hl : l.Nodup) {f : α → List β}
    {q : β → Bool} {a : α} (ha : a ∈ l) (h : ∀ b ∈ l, b ≠ a → (f b).countP q = 0) :
    (l.flatMap f).countP q = (f a).countP q := by
  obtain ⟨pre, post, rfl⟩ := List.append_of_mem ha
  have hzero (m : List α) (hm : ∀ b ∈ m, b ∈ pre ++ a :: post ∧ b ≠ a) :
      (m.flatMap f).countP q = 0 := by
    rw [List.countP_flatMap, List.sum_eq_zero]
    intro n hn
    obtain ⟨b, hb, rfl⟩ := List.mem_map.mp hn
    exact h b (hm b hb).1 (hm b hb).2
  obtain ⟨hna, -⟩ := List.nodup_cons.mp (List.nodup_middle.mp hl)
  have hpre := hzero pre fun b hb => ⟨List.mem_append_left _ hb, by
    rintro rfl; exact hna (List.mem_append_left _ hb)⟩
  have hpost := hzero post fun b hb => ⟨List.mem_append_right _ (List.mem_cons_of_mem _ hb), by
    rintro rfl; exact hna (List.mem_append_right _ hb)⟩
  rw [List.flatMap_append, List.flatMap_cons, List.countP_append, List.countP_append, hpre, hpost]
  omega

theorem number_inj (hlen : keys.length ≤ 2 ^ 32) {j k : VertKey} (hj : j ∈ keys) (hk : k ∈ keys) :
    number keys j = number keys k ↔ j = k := by
  rw [number_of_length_le hlen hj, number_of_length_le hlen hk]
  exact List.idxOf_inj hj

theorem mem_of_hasEdge {α : Type*} [DecidableEq α] {v w : α} {t : α × α × α}
    (h : hasEdge v w t = true) : v ∈ [t.1, t.2.1, t.2.2] ∧ w ∈ [t.1, t.2.1, t.2.2] := by
  simp only [hasEdge, sides, List.mem_cons, Prod.mk.injEq, List.not_mem_nil, or_false,
    decide_eq_true_eq] at h ⊢
  rcases h with ⟨rfl, rfl⟩ | ⟨rfl, rfl⟩ | ⟨rfl, rfl⟩ <;> simp

theorem mem_created_of_corner {field : McField K} {iso : K} {p : Vec3 Nat} (hp : p ∈ ps)
    (ht : t ∈ caseTriangles (caseOf field iso p)) (he : e ∈ [t.1, t.2.1, t.2.2]) :
    (⟨p, e⟩ : VertKey) ∈ created field iso ps :=
  mem_created.mpr ⟨hp, mem_crossedEdges_of_corner ht he⟩

section Numbered
variable {field : McField K} {iso : K} {ps : List (Vec3 Nat)}
  (hlen : (created field iso ps).length ≤ 2 ^ 32) {p : Vec3 Nat} (hp : p ∈ ps)
include hlen hp

theorem not_mem_other_cell (he : e ∈ crossedEdges (caseOf field iso p)) {q : Vec3 Nat}
    (hq : q ∈ ps) (hne : q ≠ p) (ht : t ∈ cellTriangles field iso (created field iso ps) q) :
    number (created field iso ps) ⟨p, e⟩ ∉ [t.1, t.2.1, t.2.2] := by
  obtain ⟨u, hu, rfl⟩ := List.mem_map.mp ht
  have hkey : (⟨p, e⟩ : VertKey) ∈ created field iso ps := mem_created.mpr ⟨hp, he⟩
  have hcorner (a : Nat) (ha : a ∈ [u.1, u.2.1, u.2.2]) :
      number (created field iso ps) ⟨p, e⟩ ≠ number (created field iso ps) ⟨q, a⟩ := by
    intro heq
    have hk := (number_inj hlen hkey (mem_created_of_corner hq hu ha)).mp heq
    exact hne (VertKey.mk.inj hk).1.symm
  simp only [List.mem_cons, List.not_mem_nil, or_false, forall_eq_or_imp, forall_eq] at hcorner
  simp only [List.mem_cons, List.not_mem_nil, hcorner, or_self, not_false_eq_true]

theorem hasEdge_number {a b : Nat} (ha : a ∈ crossedEdges (caseOf field iso p))
    (hb : b ∈ crossedEdges (caseOf field iso p)) (ht : t ∈ caseTriangles (caseOf field iso p)) :
    hasEdge (number (created field iso ps) ⟨p, a⟩) (number (created field iso ps) ⟨p, b⟩)
        (number (created field iso ps) ⟨p, t.1⟩, number (created field iso ps) ⟨p, t.2.1⟩,
          number (created field iso ps) ⟨p, t.2.2⟩) = hasEdge a b t := by
  have hinj (c : Nat) (hc : c ∈ crossedEdges (caseOf field iso p)) (e : Nat)
      (he : e ∈ [t.1, t.2.1, t.2.2]) :
      number (created field iso ps) ⟨p, c⟩ = number (created field iso ps) ⟨p, e⟩ ↔ c = e := by
    have hkey : (⟨p, c⟩ : VertKey) ∈ created field iso ps := mem_created.mpr ⟨hp, hc⟩
    rw [number_inj hlen hkey (mem_created_of_corner hp ht he)]
    simp
  exact hasEdge_map (fun e => number (created field iso ps) ⟨p, e⟩) (hinj a ha) (hinj b hb)

theorem paired_of_case (hps : ps.Nodup) {a b : Nat} (ha : a ∈ crossedEdges (caseOf field iso p))
    (hb : b ∈ crossedEdges (caseOf field iso p))
    (h : PairedEdge (caseTriangles (caseOf field iso p)) a b) :
    PairedEdge (ps.flatMap (cellTriangles field iso (created field iso ps)))
      (number (created field iso ps) ⟨p, a⟩) (number (created field iso ps) ⟨p, b⟩) := by
  have hcount (f : Nat × Nat × Nat → Bool) (g : Nat × Nat × Nat → Bool)
      (hmem : ∀ t, f t = true → number (created field iso ps) ⟨p, a⟩ ∈ [t.1, t.2.1, t.2.2])
      (hmap : ∀ t ∈ caseTriangles (caseOf field iso p),
        f (number (created field iso ps) ⟨p, t.1⟩, number (created field iso ps) ⟨p, t.2.1⟩,
          number (created field iso ps) ⟨p, t.2.2⟩) = g t) :
      (ps.flatMap (cellTriangles field iso (created field iso ps))).countP f =
        (caseTriangles (caseOf field iso p)).countP g := by
    rw [countP_flatMap_eq hps hp, cellTriangles, List.countP_map]
    · exact List.countP_congr fun t ht => by rw [Function.comp_apply, hmap t ht]
    · intro q hq hne
      rw [List.countP_eq_zero]
      intro t ht hf
      exact not_mem_other_cell hlen hp ha hq hne ht (hmem t hf)
  obtain ⟨h2, hab, hba⟩ := h
  refine ⟨?_, ?_, ?_⟩
  · rw [← h2]
    refine hcount _ _ (fun t ht => ?_) fun t ht => ?_
    · rcases Bool.or_eq_true_iff.mp ht with ht | ht
      · exact (mem_of_hasEdge ht).1
      · exact (mem_of_hasEdge ht).2
    · rw [hasEdge_number hlen hp ha hb ht, hasEdge_number hlen hp hb ha ht]
  · rw [← hab]
    exact hcount _ _ (fun t ht => (mem_of_hasEdge ht).1) fun t ht => hasEdge_number hlen hp ha hb ht
  · rw [← hba]
    exact hcount _ _ (fun t ht => (mem_of_hasEdge ht).2) fun t ht => hasEdge_number hlen hp hb ha ht

end Numbered

/-! ## The boundary -/

theorem on_nextOn (p : Vec3 Nat) (i j : Axis) :
    (nextOn p i).on j = p.on j + if j = i then 1 else 0 := by
  cases i <;> cases j <;> rfl

variable {i : Axis}

theorem exists_nextOn {p : Vec3 Nat} (h : 0 < p.on i) : ∃ q, nextOn q i = p := by
  obtain ⟨x, y, z⟩ := p
  cases i with
  | x => exact ⟨⟨x - 1, y, z⟩, congrArg (Vec3.mk · y z) (Nat.sub_add_cancel h)⟩
  | y => exact ⟨⟨x, y - 1, z⟩, congrArg (Vec3.mk x · z) (Nat.sub_add_cancel h)⟩
  | z => exact ⟨⟨x, y, z - 1⟩, congrArg (Vec3.mk x y ·) (Nat.sub_add_cancel h)⟩

theorem gridEdge_nextOn (q : Vec3 Nat) {a b : Nat} (haxis : edgeAxis a = edgeAxis b)
    (hlow : lowOffset b = nextOn (lowOffset a) i) :
    gridEdge ⟨nextOn q i, a⟩ = gridEdge ⟨q, b⟩ := by
  have hplus : (nextOn q i).plus (lowOffset a) = q.plus (nextOn (lowOffset a) i) := by
    apply Vec3.ext_on
    intro j
    rw [Vec3.on_plus, Vec3.on_plus, on_nextOn, on_nextOn]
    omega
  simp only [gridEdge, haxis, hlow, hplus]

omit [Field K] [LinearOrder K] in
theorem exists_other_cell {field : McField K} {p : Vec3 Nat} (hp : p ∈ cells field) {side : Nat}
    (hside : side ∈ [0, 1]) (he : e < 12) (hface : onFace i side e) (hlow : p.on i + side ≠ 0)
    (hhigh : p.on i + side + 1 ≠ field.dims.on i) :
    ∃ q ∈ cells field, q ≠ p ∧ ∃ a < 12, gridEdge ⟨q, a⟩ = gridEdge ⟨p, e⟩ := by
  have hnear : ∀ i ∈ Axis.all, ∀ e < 12, onFace i 0 e →
      ∃ a ∈ List.range 12, edgeAxis e = edgeAxis a ∧ lowOffset a = nextOn (lowOffset e) i := by
    decide
  have hfar : ∀ i ∈ Axis.all, ∀ e < 12, onFace i 1 e →
      ∃ a ∈ List.range 12, edgeAxis a = edgeAxis e ∧ lowOffset e = nextOn (lowOffset a) i := by
    decide
  have hne (q : Vec3 Nat) : nextOn q i ≠ q := by
    intro h
    have hi := congrArg (fun v : Vec3 Nat => v.on i) h
    simp [on_nextOn] at hi
  have hcell := mem_cells.mp hp
  rcases List.mem_pair.mp hside with rfl | rfl
  · obtain ⟨a, ha, haxis, heq⟩ := hnear i (Axis.mem_all i) e he hface
    obtain ⟨q, rfl⟩ := exists_nextOn (Nat.pos_of_ne_zero hlow)
    refine ⟨q, mem_cells.mpr fun j => ?_, (hne q).symm, a, List.mem_range.mp ha, ?_⟩
    · have hj := hcell j
      rw [on_nextOn] at hj
      omega
    · exact (gridEdge_nextOn q haxis heq).symm
  · obtain ⟨a, ha, haxis, heq⟩ := hfar i (Axis.mem_all i) e he hface
    refine ⟨nextOn p i, mem_cells.mpr fun j => ?_, hne p, a, List.mem_range.mp ha,
      gridEdge_nextOn p haxis heq⟩
    have hi := hcell i
    have hj := hcell j
    rw [on_nextOn]
    by_cases hij : j = i
    · subst hij
      rw [if_pos rfl]
      omega
    · rw [if_neg hij]
      omega

theorem on_edgePoint (field : McField K) (iso : K) (c : List K) (key : VertKey) (i : Axis) :
    ∃ t, (edgePoint field iso c key).on i = edgeCoord (field.dims.on i)
      ((cornerPoint key.base (cornersOf key.edgeId).1).on i)
      ((cornerPoint key.base (cornersOf key.edgeId).2).on i) t := by
  cases i <;> exact ⟨_, rfl⟩

omit [LinearOrder K] in
theorem edgeCoord_self (n c : Nat) (t : K) : edgeCoord n c c t = c * (1 / (n - 1)) - 1 / 2 := by
  rw [edgeCoord, sub_self, zero_mul, add_zero]

theorem on_pointOf {field : McField K} {iso : K} {p : Vec3 Nat} {side : Nat}
    (hface : onFace i side e) :
    (pointOf field iso ⟨p, e⟩).on i =
      ((p.on i + side : Nat) : K) * (1 / (field.dims.on i - 1)) - 1 / 2 := by
  obtain ⟨t, ht⟩ := on_edgePoint field iso (cornerValues field p) ⟨p, e⟩ i
  rw [pointOf, ht, cornerPoint, cornerPoint, Vec3.on_plus, Vec3.on_plus, hface.1, hface.2,
    edgeCoord_self]

variable [IsStrictOrderedRing K]

theorem onBoundary_of_face {field : McField K} {iso : K} {p : Vec3 Nat} (hp : p ∈ cells field)
    {mesh : Mesh K} {side a b v w : Nat} (ha : onFace i side a) (hb : onFace i side b)
    (hv : mesh.vertices[v]? = some (pointOf field iso ⟨p, a⟩))
    (hw : mesh.vertices[w]? = some (pointOf field iso ⟨p, b⟩))
    (hplane : p.on i + side = 0 ∨ p.on i + side + 1 = field.dims.on i) :
    OnBoundary mesh v w := by
  refine ⟨_, _, i, hv, hw, ?_⟩
  rw [on_pointOf ha, on_pointOf hb]
  rcases hplane with h0 | h1
  · left
    rw [h0, Nat.cast_zero, zero_mul, zero_sub, neg_div]
    exact ⟨rfl, rfl⟩
  · right
    have hcell : p.on i + 1 < field.dims.on i := mem_cells.mp hp i
    have hcast : (field.dims.on i : K) - 1 = ((p.on i + side : Nat) : K) := by
      rw [← h1, Nat.cast_add, Nat.cast_one, add_sub_cancel_right]
    have hne : ((p.on i + side : Nat) : K) ≠ 0 := Nat.cast_ne_zero.mpr (by omega)
    rw [hcast, mul_one_div_cancel hne]
    constructor <;> norm_num

omit [IsStrictOrderedRing K] in
theorem Unshared.plane {field : McField K} {iso : K} (h : Unshared field iso) {p : Vec3 Nat}
    (hp : p ∈ cells field) (he : e ∈ crossedEdges (caseOf field iso p)) {side : Nat}
    (hside : side ∈ [0, 1]) (hface : onFace i side e) :
    p.on i + side = 0 ∨ p.on i + side + 1 = field.dims.on i := by
  by_contra hcon
  obtain ⟨hlow, hhigh⟩ := not_or.mp hcon
  obtain ⟨he12, hcross⟩ := crossedIn_iff.mp (mem_crossedEdges.mp he)
  obtain ⟨q, hq, hne, a, ha, heq⟩ := exists_other_cell hp hside he12 hface hlow hhigh
  have hone := h.2 _ (gridEdge_inGrid hp he12) hcross
  have hmem (r : Vec3 Nat) (hr : r ∈ cells field) (b : Nat) (hb : b < 12)
      (hrb : gridEdge ⟨r, b⟩ = gridEdge ⟨p, e⟩) : r ∈ cellsWith field (gridEdge ⟨p, e⟩) :=
    List.mem_filter.mpr ⟨hr, List.any_eq_true.mpr ⟨b, List.mem_range.mpr hb, decide_eq_true hrb⟩⟩
  obtain ⟨r, hr⟩ := List.length_eq_one_iff.mp hone
  have hpr := hr ▸ hmem p hp e he12 rfl
  have hqr := hr ▸ hmem q hq a ha heq
  exact hne ((List.mem_singleton.mp hqr).trans (List.mem_singleton.mp hpr).symm)

theorem closedSurface_of_unshared {field : McField K} {iso : K} (h : Unshared field iso)
    (hlen : crossings field iso ≤ 2 ^ 32) : ClosedSurface field iso := by
  obtain ⟨s, hrun, hs⟩ := built_of_terminated h.1
  have hkeys : (created field iso (cells field)).length ≤ 2 ^ 32 := by rwa [length_created]
  refine ⟨s, hrun, by rw [marchingCubes_eq, hrun]; rfl, fun g hin hg => ?_, ?_⟩
  · rw [length_contributed hs.cached, countP_created hg]
    exact h.2 g hin hg
  · rw [triangles_eq hs]
    intro t ht e he hinner
    obtain ⟨p, hp, ht⟩ := List.mem_flatMap.mp ht
    obtain ⟨u, hu, rfl⟩ := List.mem_map.mp ht
    rw [sides_map (fun e => number (created field iso (cells field)) ⟨p, e⟩)] at he
    obtain ⟨⟨a, b⟩, hab, rfl⟩ := List.mem_map.mp he
    obtain ⟨ha, hb⟩ := mem_of_mem_sides hab
    have hac := mem_crossedEdges_of_corner hu ha
    have hbc := mem_crossedEdges_of_corner hu hb
    have hface : ¬ shareFace a b := by
      intro hshare
      obtain ⟨i, -, side, hside, ha, hb⟩ := hshare
      exact hinner (onBoundary_of_face hp ha hb (getElem?_number hs hkeys hp hac).2
        (getElem?_number hs hkeys hp hbc).2 (h.plane hp hac hside ha))
    exact paired_of_case hkeys hp (nodup_cells field) hac hbc
      (caseTriangles_oriented _ (caseOf_lt field iso p) u hu (a, b) hab hface)

/-- A closed surface needs crossing edges that no two cells share, and has no other obstacle as
long as the crossings can be numbered in 32 bits. -/
theorem closedSurface_iff_unshared (field : McField K) (iso : K) :
    (ClosedSurface field iso → Unshared field iso) ∧
      (Unshared field iso ∧ crossings field iso ≤ 2 ^ 32 → ClosedSurface field iso) :=
  ⟨ClosedSurface.unshared, fun h => closedSurface_of_unshared h.1 h.2⟩

/-- One cell with one corner below zero. -/
def cornerField : McField ℚ := ⟨2, 2, 2, [-1, 1, 1, 1, 1, 1, 1, 1], rfl⟩

/-- The surface that cuts off one corner of a single cell is closed. -/
theorem cornerField_closedSurface :
    Unshared cornerField 0 ∧ ClosedSurface cornerField 0 := by
  have hunshared : Unshared cornerField 0 := by
    have hcells : ∀ x < 2, ∀ y < 2, ∀ z < 2, ∀ i ∈ Axis.all,
        (∀ j ∈ Axis.all, (GridEdge.high ⟨⟨x, y, z⟩, i⟩).on j < 2) →
          (cellsWith cornerField ⟨⟨x, y, z⟩, i⟩).length = 1 := by decide +kernel
    have hlow (g : GridEdge) (j : Axis) : g.low.on j ≤ g.high.on j := by
      rw [GridEdge.high, on_nextOn]
      omega
    have htwo (j : Axis) : cornerField.dims.on j = 2 := by cases j <;> rfl
    refine ⟨by unfold Terminated; decide +kernel, fun g hin _ => ?_⟩
    have hlt (j : Axis) : g.high.on j < 2 := htwo j ▸ hin j
    exact hcells g.low.x ((hlow g .x).trans_lt (hlt .x)) g.low.y ((hlow g .y).trans_lt (hlt .y))
      g.low.z ((hlow g .z).trans_lt (hlt .z)) g.axis (Axis.mem_all _) fun j _ => hlt j
  exact ⟨hunshared, (closedSurface_iff_unshared cornerField 0).2 ⟨hunshared, by decide +kernel⟩⟩

/-- Two cells, one above the other, cut by an upright plane. -/
def wallField : McField ℚ := ⟨2, 2, 3, [-1, 1, -1, 1, -1, 1, -1, 1, -1, 1, -1, 1], rfl⟩

/-- The cells share crossing edges, and each creates a vertex of its own for them. -/
theorem wallField_not_closedSurface : ¬ ClosedSurface wallField 0 := by
  intro h
  have hin : (⟨⟨0, 0, 1⟩, .x⟩ : GridEdge).InGrid wallField := by
    intro i
    cases i <;> decide
  have hcross : (⟨⟨0, 0, 1⟩, .x⟩ : GridEdge).Crosses wallField 0 := by
    show ¬ (wallField.valueAt ⟨0, 0, 1⟩ < 0 ↔ wallField.valueAt ⟨1, 0, 1⟩ < 0)
    decide +kernel
  have hone := h.unshared.2 _ hin hcross
  exact absurd hone (by decide +kernel)

end FractalStudio.Compute
