import Mathlib.Algebra.Order.Field.Basic
import Mathlib.Tactic.Linarith
import Mathlib.Tactic.Ring
import Mathlib.Data.List.GetD
import FractalStudio.Compute.Mesh

/-!
# Height-field meshes

`buildHsMesh` of `heightfield_mesh.cpp`: a square field becomes a top surface with four walls and a
bottom. The walls have a vertex under each border vertex of the surface, the bottom has the four
corners only. Doubles are exact, and a cast to float keeps grid coordinates apart.
-/
namespace FractalStudio.Compute

structure FloatCast (K F : Type*) [Field K] [LinearOrder K] where
  cast : K → F
  separates : ∀ a b, -(1 / 2) ≤ a → b ≤ 1 / 2 → 1 / 4095 ≤ b - a → cast a ≠ cast b

structure HsMeshParams (K : Type*) where
  resolution : Int
  heightScale : K
  /-- `computeHsField` at a resolution. -/
  field : (n : Nat) → {f : List K // f.length = n * n}

namespace HsMeshParams
variable {K F : Type*} [Field K] [LinearOrder K] (p : HsMeshParams K) (fl : FloatCast K F)

/-- `N` -/
def size : Nat := (max 4 (min 4096 p.resolution)).toNat

def samples : List K := (p.field p.size).1

/-- The least value, found from the first one on. -/
def lo : K := p.samples.foldl (fun lo v => if v < lo then v else lo) (p.samples.headD 0)

def hi : K := p.samples.foldl (fun hi v => if hi < v then v else hi) (p.samples.headD 0)

def denom : K := if p.lo < p.hi then p.hi - p.lo else 1

/-- The share of a side that lies before a column or a row. -/
def share (i : Nat) : K := (i : K) / ((p.size - 1 : Nat) : K) - 1 / 2

def topX (col : Nat) : F := fl.cast (p.share col)

def topY (row : Nat) : F := fl.cast (-p.share row)

/-- `f01 * heightScale` at a vertex of the grid. -/
def height (k : Nat) : K := (p.samples.getD k 0 - p.lo) / p.denom * p.heightScale

/-- The vertex `row * N + col` of the surface. -/
def surfaceVertex (k : Nat) : Vec3 F :=
  ⟨p.topX fl (k % p.size), p.topY fl (k / p.size), fl.cast (p.height k)⟩

/-- The two triangles of a cell, counter-clockwise from above. -/
def cell (row col : Nat) : List (Nat × Nat × Nat) :=
  let a := row * p.size + col
  let b := row * p.size + col + 1
  let c := (row + 1) * p.size + col
  let d := (row + 1) * p.size + col + 1
  [(a, c, b), (b, c, d)]

def surface : List (Nat × Nat × Nat) :=
  (List.range (p.size - 1)).flatMap fun row =>
    (List.range (p.size - 1)).flatMap fun col => p.cell row col

/-- A segment of a wall to the north or to the east: the two vertices of the surface, and the two
on the ground. -/
def facing (tc tc1 bc bc1 : Nat) : List (Nat × Nat × Nat) := [(tc, tc1, bc), (tc1, bc1, bc)]

/-- The reversed winding, to the south and to the west. -/
def turned (tc tc1 bc bc1 : Nat) : List (Nat × Nat × Nat) := [(tc1, tc, bc1), (tc, bc, bc1)]

/-- A wall from the vertex index of its first ground vertex. -/
def wall (segment : Nat → Nat → Nat → Nat → List (Nat × Nat × Nat)) (top : Nat → Nat)
    (bBase : Nat) : List (Nat × Nat × Nat) :=
  (List.range (p.size - 1)).flatMap fun i =>
    segment (top i) (top (i + 1)) (bBase + i) (bBase + i + 1)

def southTop (col : Nat) : Nat := (p.size - 1) * p.size + col

def eastTop (row : Nat) : Nat := row * p.size + (p.size - 1)

def westTop (row : Nat) : Nat := row * p.size

def groundAlongX (row : Nat) : List (Vec3 F) :=
  (List.range p.size).map fun col => ⟨p.topX fl col, p.topY fl row, fl.cast 0⟩

def groundAlongY (col : Nat) : List (Vec3 F) :=
  (List.range p.size).map fun row => ⟨p.topX fl col, p.topY fl row, fl.cast 0⟩

/-- North-west, north-east, south-east and south-west. -/
def corners : List (Vec3 F) :=
  [⟨fl.cast (-(1 / 2)), fl.cast (1 / 2), fl.cast 0⟩, ⟨fl.cast (1 / 2), fl.cast (1 / 2), fl.cast 0⟩,
    ⟨fl.cast (1 / 2), fl.cast (-(1 / 2)), fl.cast 0⟩,
    ⟨fl.cast (-(1 / 2)), fl.cast (-(1 / 2)), fl.cast 0⟩]

def vertices : List (Vec3 F) :=
  (List.range (p.size * p.size)).map (p.surfaceVertex fl) ++ (p.groundAlongX fl 0 ++
    (p.groundAlongX fl (p.size - 1) ++ (p.groundAlongY fl (p.size - 1) ++
      (p.groundAlongY fl 0 ++ corners fl))))

/-- The index of the first ground vertex of the walls, in the order north, south, east, west, and
of the bottom's corners. -/
def ground (i : Nat) : Nat := p.size * p.size + i * p.size

def bottom : List (Nat × Nat × Nat) :=
  [(p.ground 4, p.ground 4 + 1, p.ground 4 + 2), (p.ground 4, p.ground 4 + 2, p.ground 4 + 3)]

def triangles : List (Nat × Nat × Nat) :=
  p.surface ++ (p.wall facing id (p.ground 0) ++ (p.wall turned p.southTop (p.ground 1) ++
    (p.wall facing p.eastTop (p.ground 2) ++ (p.wall turned p.westTop (p.ground 3) ++ p.bottom))))

def buildHsMesh : Mesh F := ⟨p.vertices fl, flatten p.triangles⟩

end HsMeshParams

namespace Mesh
variable {F : Type*} [DecidableEq F] (mesh : Mesh F)

/-- The positions of a triangle's corners. -/
def places (t : Nat × Nat × Nat) : Option (Vec3 F) × Option (Vec3 F) × Option (Vec3 F) :=
  (mesh.vertices[t.1]?, mesh.vertices[t.2.1]?, mesh.vertices[t.2.2]?)

/-- The triangles by position, without those that have two corners in one place. -/
def solid : List (Option (Vec3 F) × Option (Vec3 F) × Option (Vec3 F)) :=
  (mesh.triangles.map mesh.places).filter fun t =>
    t.1 ≠ t.2.1 ∧ t.2.1 ≠ t.2.2 ∧ t.2.2 ≠ t.1

/-- Each edge of a triangle is run along once in the opposite direction. -/
def Watertight : Prop :=
  ∀ t ∈ mesh.solid, ∀ s ∈ sides t, mesh.solid.countP (hasEdge s.2 s.1) = 1

end Mesh

namespace HsMeshParams

section Size
variable {K : Type*} {p : HsMeshParams K}

theorem four_le_size : 4 ≤ p.size := by
  rw [size]
  omega

theorem size_le : p.size ≤ 4096 := by
  rw [size]
  omega

theorem index_lt {row col : Nat} (hrow : row < p.size) (hcol : col < p.size) :
    row * p.size + col < p.size * p.size := by
  calc row * p.size + col < row * p.size + p.size := by omega
    _ = (row + 1) * p.size := by rw [Nat.succ_mul]
    _ ≤ p.size * p.size := Nat.mul_le_mul_right _ hrow

end Size

theorem getElem?_append_add {α : Type*} {l r : List α} {n : Nat} (h : l.length = n) (i : Nat) :
    (l ++ r)[n + i]? = r[i]? := by
  rw [← h, List.getElem?_append_right (Nat.le_add_right _ _), Nat.add_sub_cancel_left]

section Places
variable {K F : Type*} [Field K] [LinearOrder K] {p : HsMeshParams K} {fl : FloatCast K F}

theorem at_surface {k : Nat} (hk : k < p.size * p.size) :
    (p.vertices fl)[k]? = some (p.surfaceVertex fl k) := by
  rw [vertices, List.getElem?_append_left (by simpa using hk)]
  simp [hk]

theorem at_grid {row col : Nat} (hrow : row < p.size) (hcol : col < p.size) :
    (p.vertices fl)[row * p.size + col]? =
      some ⟨p.topX fl col, p.topY fl row, fl.cast (p.height (row * p.size + col))⟩ := by
  have hpos : 0 < p.size := by omega
  have hmod : (row * p.size + col) % p.size = col := by
    rw [Nat.mul_comm, Nat.mul_add_mod, Nat.mod_eq_of_lt hcol]
  have hdiv : (row * p.size + col) / p.size = row := by
    rw [Nat.mul_comm, Nat.mul_add_div hpos, Nat.div_eq_of_lt hcol, Nat.add_zero]
  rw [at_surface (index_lt hrow hcol), surfaceVertex, hmod, hdiv]

theorem at_first_row {col : Nat} (hcol : col < p.size) :
    (p.vertices fl)[col]? = some ⟨p.topX fl col, p.topY fl 0, fl.cast (p.height col)⟩ := by
  have hrow : 0 < p.size := by omega
  have hgrid : (p.vertices fl)[0 * p.size + col]? = _ := at_grid hrow hcol
  rw [Nat.zero_mul, Nat.zero_add] at hgrid
  exact hgrid

/-! ### The ground, side after side -/

theorem after_surface (i : Nat) : (p.vertices fl)[p.ground 0 + i]? =
    (p.groundAlongX fl 0 ++ (p.groundAlongX fl (p.size - 1) ++
      (p.groundAlongY fl (p.size - 1) ++ (p.groundAlongY fl 0 ++ corners fl))))[i]? := by
  have hindex : p.ground 0 + i = p.size * p.size + i := by
    rw [ground]
    omega
  rw [vertices, hindex, getElem?_append_add (by simp)]

theorem after_north (i : Nat) : (p.vertices fl)[p.ground 1 + i]? =
    (p.groundAlongX fl (p.size - 1) ++
      (p.groundAlongY fl (p.size - 1) ++ (p.groundAlongY fl 0 ++ corners fl)))[i]? := by
  have hindex : p.ground 1 + i = p.ground 0 + (p.size + i) := by
    rw [ground, ground]
    omega
  rw [hindex, after_surface, getElem?_append_add (by simp [groundAlongX])]

theorem after_south (i : Nat) : (p.vertices fl)[p.ground 2 + i]? =
    (p.groundAlongY fl (p.size - 1) ++ (p.groundAlongY fl 0 ++ corners fl))[i]? := by
  have hindex : p.ground 2 + i = p.ground 1 + (p.size + i) := by
    rw [ground, ground]
    omega
  rw [hindex, after_north, getElem?_append_add (by simp [groundAlongX])]

theorem after_east (i : Nat) :
    (p.vertices fl)[p.ground 3 + i]? = (p.groundAlongY fl 0 ++ corners fl)[i]? := by
  have hindex : p.ground 3 + i = p.ground 2 + (p.size + i) := by
    rw [ground, ground]
    omega
  rw [hindex, after_south, getElem?_append_add (by simp [groundAlongY])]

theorem at_corner (i : Nat) : (p.vertices fl)[p.ground 4 + i]? = (corners fl)[i]? := by
  have hindex : p.ground 4 + i = p.ground 3 + (p.size + i) := by
    rw [ground, ground]
    omega
  rw [hindex, after_east, getElem?_append_add (by simp [groundAlongY])]

theorem at_north {col : Nat} (hcol : col < p.size) :
    (p.vertices fl)[p.ground 0 + col]? = some ⟨p.topX fl col, p.topY fl 0, fl.cast 0⟩ := by
  rw [after_surface, List.getElem?_append_left (by simpa [groundAlongX] using hcol)]
  simp [groundAlongX, hcol]

theorem at_south {col : Nat} (hcol : col < p.size) :
    (p.vertices fl)[p.ground 1 + col]? =
      some ⟨p.topX fl col, p.topY fl (p.size - 1), fl.cast 0⟩ := by
  rw [after_north, List.getElem?_append_left (by simpa [groundAlongX] using hcol)]
  simp [groundAlongX, hcol]

theorem at_east {row : Nat} (hrow : row < p.size) :
    (p.vertices fl)[p.ground 2 + row]? =
      some ⟨p.topX fl (p.size - 1), p.topY fl row, fl.cast 0⟩ := by
  rw [after_south, List.getElem?_append_left (by simpa [groundAlongY] using hrow)]
  simp [groundAlongY, hrow]

theorem at_west {row : Nat} (hrow : row < p.size) :
    (p.vertices fl)[p.ground 3 + row]? = some ⟨p.topX fl 0, p.topY fl row, fl.cast 0⟩ := by
  rw [after_east, List.getElem?_append_left (by simpa [groundAlongY] using hrow)]
  simp [groundAlongY, hrow]

theorem index_of_place {v : Nat} {q : Vec3 F}
    (h : (p.vertices fl)[v]? = some q) : v < (p.vertices fl).length :=
  (List.getElem?_eq_some_iff.mp h).1

/-! ## Columns -/

/-- A corner in one of two columns side by side. -/
def InColumn (p : HsMeshParams K) (fl : FloatCast K F) (c v : Nat) : Prop :=
  ∃ q, (p.vertices fl)[v]? = some q ∧ (q.x = p.topX fl c ∨ q.x = p.topX fl (c + 1))

/-- All corners of a triangle stand in two columns side by side. -/
def InColumns (p : HsMeshParams K) (fl : FloatCast K F) (t : Nat × Nat × Nat) : Prop :=
  ∃ c, c + 1 < p.size ∧ p.InColumn fl c t.1 ∧ p.InColumn fl c t.2.1 ∧ p.InColumn fl c t.2.2

theorem surface_inColumns {t : Nat × Nat × Nat} (ht : t ∈ p.surface) : p.InColumns fl t := by
  obtain ⟨row, hrow, ht⟩ := List.mem_flatMap.mp ht
  obtain ⟨col, hcol, ht⟩ := List.mem_flatMap.mp ht
  rw [List.mem_range] at hrow hcol
  have ha : p.InColumn fl col (row * p.size + col) :=
    ⟨_, at_grid (by omega) (by omega), Or.inl rfl⟩
  have hb : p.InColumn fl col (row * p.size + col + 1) :=
    ⟨_, at_grid (by omega) (by omega : col + 1 < p.size), Or.inr rfl⟩
  have hc : p.InColumn fl col ((row + 1) * p.size + col) :=
    ⟨_, at_grid (by omega) (by omega), Or.inl rfl⟩
  have hd : p.InColumn fl col ((row + 1) * p.size + col + 1) :=
    ⟨_, at_grid (by omega) (by omega : col + 1 < p.size), Or.inr rfl⟩
  rw [cell] at ht
  simp only [List.mem_cons, List.not_mem_nil, or_false] at ht
  refine ⟨col, by omega, ?_⟩
  rcases ht with rfl | rfl
  · exact ⟨ha, hc, hb⟩
  · exact ⟨hb, hc, hd⟩

theorem wall_inColumns {segment : Nat → Nat → Nat → Nat → List (Nat × Nat × Nat)} {top : Nat → Nat}
    {bBase : Nat} (hsegment : segment = facing ∨ segment = turned)
    (h : ∀ i, i + 1 < p.size → ∃ c, c + 1 < p.size ∧ p.InColumn fl c (top i) ∧
      p.InColumn fl c (top (i + 1)) ∧ p.InColumn fl c (bBase + i) ∧ p.InColumn fl c (bBase + i + 1))
    {t : Nat × Nat × Nat} (ht : t ∈ p.wall segment top bBase) : p.InColumns fl t := by
  obtain ⟨i, hi, ht⟩ := List.mem_flatMap.mp ht
  rw [List.mem_range] at hi
  obtain ⟨c, hc, htc, htc1, hbc, hbc1⟩ := h i (by omega)
  refine ⟨c, hc, ?_⟩
  rcases hsegment with rfl | rfl
  · simp only [facing, List.mem_cons, List.not_mem_nil, or_false] at ht
    rcases ht with rfl | rfl
    · exact ⟨htc, htc1, hbc⟩
    · exact ⟨htc1, hbc1, hbc⟩
  · simp only [turned, List.mem_cons, List.not_mem_nil, or_false] at ht
    rcases ht with rfl | rfl
    · exact ⟨htc1, htc, hbc1⟩
    · exact ⟨htc, hbc, hbc1⟩

/-- Every triangle stands on its columns or closes the bottom. -/
theorem inColumns_or_bottom {t : Nat × Nat × Nat} (ht : t ∈ p.triangles) :
    p.InColumns fl t ∨ t ∈ p.bottom := by
  have hsize : 4 ≤ p.size := four_le_size
  simp only [triangles, List.mem_append] at ht
  rcases ht with ht | ht | ht | ht | ht | ht
  · exact Or.inl (surface_inColumns ht)
  · left
    apply wall_inColumns (Or.inl rfl) _ ht
    intro i hi
    have hrow : i < p.size := by omega
    exact ⟨i, hi, ⟨_, at_first_row hrow, Or.inl rfl⟩, ⟨_, at_first_row hi, Or.inr rfl⟩,
      ⟨_, at_north (by omega), Or.inl rfl⟩, ⟨_, at_north hi, Or.inr rfl⟩⟩
  · left
    apply wall_inColumns (Or.inr rfl) _ ht
    intro i hi
    have hrow : p.size - 1 < p.size := by omega
    exact ⟨i, hi, ⟨_, at_grid hrow (by omega), Or.inl rfl⟩, ⟨_, at_grid hrow hi, Or.inr rfl⟩,
      ⟨_, at_south (by omega), Or.inl rfl⟩, ⟨_, at_south hi, Or.inr rfl⟩⟩
  · left
    apply wall_inColumns (Or.inl rfl) _ ht
    intro i hi
    have hcol : p.size - 1 < p.size := by omega
    have hlast : p.size - 2 + 1 = p.size - 1 := by omega
    refine ⟨p.size - 2, by omega, ?_⟩
    rw [InColumn, InColumn, InColumn, InColumn, hlast]
    exact ⟨⟨_, at_grid (by omega) hcol, Or.inr rfl⟩, ⟨_, at_grid hi hcol, Or.inr rfl⟩,
      ⟨_, at_east (by omega), Or.inr rfl⟩, ⟨_, at_east hi, Or.inr rfl⟩⟩
  · left
    apply wall_inColumns (Or.inr rfl) _ ht
    intro i hi
    have hcol : 0 < p.size := by omega
    refine ⟨0, by omega, ?_⟩
    exact ⟨⟨_, at_grid (by omega) hcol, Or.inl rfl⟩, ⟨_, at_grid hi hcol, Or.inl rfl⟩,
      ⟨_, at_west (by omega), Or.inl rfl⟩, ⟨_, at_west hi, Or.inl rfl⟩⟩
  · exact Or.inr ht

end Places

section Border
variable {K F : Type*} [Field K] [LinearOrder K] [IsStrictOrderedRing K] {p : HsMeshParams K}
  {fl : FloatCast K F}

theorem steps_pos : (0 : K) < ((p.size - 1 : Nat) : K) := by
  have hsize : 4 ≤ p.size := four_le_size
  exact Nat.cast_pos.mpr (by omega)

omit [LinearOrder K] [IsStrictOrderedRing K] in
theorem share_zero : p.share 0 = -(1 / 2 : K) := by
  rw [share, Nat.cast_zero, zero_div, zero_sub]

theorem share_last : p.share (p.size - 1) = (1 / 2 : K) := by
  rw [share, div_self (ne_of_gt steps_pos)]
  norm_num

theorem neg_half_le_share (i : Nat) : -(1 / 2) ≤ p.share i := by
  rw [share]
  have hshare : 0 ≤ (i : K) / ((p.size - 1 : Nat) : K) :=
    div_nonneg (Nat.cast_nonneg i) steps_pos.le
  linarith

theorem share_le_half {i : Nat} (hi : i < p.size) : p.share i ≤ 1 / 2 := by
  have hle : (i : K) ≤ ((p.size - 1 : Nat) : K) := Nat.cast_le.mpr (by omega)
  have hshare : (i : K) / ((p.size - 1 : Nat) : K) ≤ 1 := (div_le_one steps_pos).mpr hle
  rw [share]
  linarith

theorem share_gap {i j : Nat} (hij : i < j) : 1 / 4095 ≤ p.share j - p.share i := by
  have hstep : (i : K) + 1 ≤ j := by exact_mod_cast hij
  have hmost : ((p.size - 1 : Nat) : K) ≤ 4095 := by
    have hsize : p.size ≤ 4096 := size_le
    exact_mod_cast (by omega : p.size - 1 ≤ 4095)
  have hgap : p.share j - p.share i = ((j : K) - i) / ((p.size - 1 : Nat) : K) := by
    rw [share, share, sub_sub_sub_cancel_right, sub_div]
  rw [hgap, div_le_div_iff₀ (by norm_num) steps_pos]
  linarith

theorem topX_ne {i j : Nat} (hij : i < j) (hj : j < p.size) : p.topX fl i ≠ p.topX fl j :=
  fl.separates _ _ (neg_half_le_share i) (share_le_half hj) (share_gap hij)

theorem topX_inj {i j : Nat} (hi : i < p.size) (hj : j < p.size)
    (h : p.topX fl i = p.topX fl j) : i = j := by
  rcases Nat.lt_trichotomy i j with hij | hij | hij
  · exact absurd h (topX_ne hij hj)
  · exact hij
  · exact absurd h.symm (topX_ne hij hi)

theorem cast_halves_ne : fl.cast (-(1 / 2)) ≠ fl.cast (1 / 2) :=
  fl.separates _ _ le_rfl le_rfl (by norm_num)

theorem not_hasEdge_of_inColumns [DecidableEq F] {t : Nat × Nat × Nat} {u v : Vec3 F}
    (ht : p.InColumns fl t) (hu : u.x = fl.cast (1 / 2)) (hv : v.x = fl.cast (-(1 / 2))) :
    hasEdge (some u) (some v) ((p.buildHsMesh fl).places t) = false := by
  have hsize : 4 ≤ p.size := four_le_size
  obtain ⟨c, hc, h₁, h₂, h₃⟩ := ht
  have hcolumn : ∀ w : Vec3 F, some w ∈ [(p.vertices fl)[t.1]?, (p.vertices fl)[t.2.1]?,
      (p.vertices fl)[t.2.2]?] → w.x = p.topX fl c ∨ w.x = p.topX fl (c + 1) := by
    intro w hw
    simp only [List.mem_cons, List.not_mem_nil, or_false] at hw
    rcases hw with hw | hw | hw
    · obtain ⟨q, hq, hx⟩ := h₁
      cases hw.trans hq
      exact hx
    · obtain ⟨q, hq, hx⟩ := h₂
      cases hw.trans hq
      exact hx
    · obtain ⟨q, hq, hx⟩ := h₃
      cases hw.trans hq
      exact hx
  rw [hasEdge, decide_eq_false_iff_not]
  intro hside
  obtain ⟨hmu, hmv⟩ := mem_of_mem_sides hside
  have hlast : p.topX fl (p.size - 1) = u.x := by rw [hu, topX, share_last]
  have hfirst : p.topX fl 0 = v.x := by rw [hv, topX, share_zero]
  have hc1 : p.size - 1 = c ∨ p.size - 1 = c + 1 := by
    rcases hcolumn u hmu with h | h
    · exact Or.inl (topX_inj (by omega) (by omega) (hlast.trans h))
    · exact Or.inr (topX_inj (by omega) hc (hlast.trans h))
  have hc0 : 0 = c ∨ 0 = c + 1 := by
    rcases hcolumn v hmv with h | h
    · exact Or.inl (topX_inj (by omega) (by omega) (hfirst.trans h))
    · exact Or.inr (topX_inj (by omega) hc (hfirst.trans h))
  omega

omit [IsStrictOrderedRing K] in
theorem triangles_buildHsMesh : (p.buildHsMesh fl).triangles = p.triangles :=
  triples_flatten p.triangles

theorem not_hasEdge_of_bottom [DecidableEq F] {t : Nat × Nat × Nat} (ht : t ∈ p.bottom) :
    hasEdge ((corners fl)[1]?) ((corners fl)[0]?) ((p.buildHsMesh fl).places t) = false := by
  have hx : fl.cast (-(1 / 2)) ≠ fl.cast (1 / 2) := cast_halves_ne
  have hplaces : (p.buildHsMesh fl).places t ∈
      [((corners fl)[0]?, (corners fl)[1]?, (corners fl)[2]?),
        ((corners fl)[0]?, (corners fl)[2]?, (corners fl)[3]?)] := by
    simp only [bottom, List.mem_cons, List.not_mem_nil, or_false] at ht
    rcases ht with rfl | rfl
    · have hplace : (p.buildHsMesh fl).places (p.ground 4, p.ground 4 + 1, p.ground 4 + 2) = _ :=
        congrArg₂ Prod.mk (at_corner 0) (congrArg₂ Prod.mk (at_corner 1) (at_corner 2))
      rw [hplace]
      exact List.mem_cons_self
    · have hplace : (p.buildHsMesh fl).places (p.ground 4, p.ground 4 + 2, p.ground 4 + 3) = _ :=
        congrArg₂ Prod.mk (at_corner 0) (congrArg₂ Prod.mk (at_corner 2) (at_corner 3))
      rw [hplace]
      exact List.mem_cons_of_mem _ List.mem_cons_self
  rw [hasEdge, decide_eq_false_iff_not]
  intro hside
  simp only [List.mem_cons, List.not_mem_nil, or_false] at hplaces
  unfold corners at hplaces hside
  generalize fl.cast (-(1 / 2)) = west at *
  generalize fl.cast (1 / 2) = east at *
  rcases hplaces with h | h <;> rw [h] at hside <;> simp [sides, hx, hx.symm] at hside

theorem bottom_mem_solid [DecidableEq F] :
    ((corners fl)[0]?, (corners fl)[1]?, (corners fl)[2]?) ∈ (p.buildHsMesh fl).solid := by
  have hx : fl.cast (-(1 / 2)) ≠ fl.cast (1 / 2) := cast_halves_ne
  have hplace : (p.buildHsMesh fl).places (p.ground 4, p.ground 4 + 1, p.ground 4 + 2) = _ :=
    congrArg₂ Prod.mk (at_corner 0) (congrArg₂ Prod.mk (at_corner 1) (at_corner 2))
  rw [Mesh.solid, List.mem_filter]
  constructor
  · rw [← hplace, triangles_buildHsMesh]
    apply List.mem_map_of_mem
    simp only [triangles, List.mem_append]
    exact Or.inr (Or.inr (Or.inr (Or.inr (Or.inr List.mem_cons_self))))
  · unfold corners
    generalize fl.cast (-(1 / 2)) = west at *
    generalize fl.cast (1 / 2) = east at *
    simp [hx, hx.symm]

omit [IsStrictOrderedRing K] in
theorem corner_index (i : Nat) (hi : i < 4) : p.ground 4 + i < (p.vertices fl).length := by
  have hplace : (p.vertices fl)[p.ground 4 + i]? = some ((corners fl).get ⟨i, hi⟩) := by
    rw [at_corner]
    exact List.getElem?_eq_getElem hi
  exact index_of_place hplace

omit [IsStrictOrderedRing K] in
theorem indices_valid :
    ∀ i ∈ (p.buildHsMesh fl).indices, i < (p.buildHsMesh fl).vertices.length := by
  intro i hi
  obtain ⟨t, ht, hi⟩ := List.mem_flatMap.mp hi
  simp only [List.mem_cons, List.not_mem_nil, or_false] at hi
  have hvalid : t.1 < (p.vertices fl).length ∧ t.2.1 < (p.vertices fl).length ∧
      t.2.2 < (p.vertices fl).length := by
    have hplaces : p.InColumns fl t ∨ t ∈ p.bottom := inColumns_or_bottom ht
    rcases hplaces with ⟨c, _, ⟨_, h₁, _⟩, ⟨_, h₂, _⟩, ⟨_, h₃, _⟩⟩ | hbottom
    · exact ⟨index_of_place h₁, index_of_place h₂, index_of_place h₃⟩
    · simp only [bottom, List.mem_cons, List.not_mem_nil, or_false] at hbottom
      rcases hbottom with rfl | rfl
      · exact ⟨corner_index 0 (by omega), corner_index 1 (by omega), corner_index 2 (by omega)⟩
      · exact ⟨corner_index 0 (by omega), corner_index 2 (by omega), corner_index 3 (by omega)⟩
  rcases hi with rfl | rfl | rfl
  · exact hvalid.1
  · exact hvalid.2.1
  · exact hvalid.2.2

/-- All indices are those of vertices, and for no field the mesh is closed: the north side of the
bottom has no other side along it. -/
theorem heightfield_not_watertight [DecidableEq F] (p : HsMeshParams K) (fl : FloatCast K F) :
    (∀ i ∈ (p.buildHsMesh fl).indices, i < (p.buildHsMesh fl).vertices.length) ∧
      ¬ (p.buildHsMesh fl).Watertight := by
  refine ⟨indices_valid, ?_⟩
  intro htight
  have hone := htight _ bottom_mem_solid ((corners fl)[0]?, (corners fl)[1]?) List.mem_cons_self
  have hpos := List.countP_pos_iff.mp (Nat.lt_of_lt_of_eq Nat.one_pos hone.symm)
  obtain ⟨t, ht, hedge⟩ := hpos
  obtain ⟨t', ht', rfl⟩ := List.mem_map.mp (List.mem_of_mem_filter ht)
  rw [triangles_buildHsMesh] at ht'
  rcases inColumns_or_bottom ht' with hcolumns | hbottom
  · have hno := not_hasEdge_of_inColumns (u := ⟨fl.cast (1 / 2), fl.cast (1 / 2), fl.cast 0⟩)
      (v := ⟨fl.cast (-(1 / 2)), fl.cast (1 / 2), fl.cast 0⟩) hcolumns rfl rfl
    exact absurd (hedge.symm.trans hno) Bool.noConfusion
  · exact absurd (hedge.symm.trans (not_hasEdge_of_bottom hbottom)) Bool.noConfusion

end Border
end HsMeshParams

/-- Without rounding. -/
def unrounded (K : Type*) [Field K] [LinearOrder K] [IsStrictOrderedRing K] : FloatCast K K where
  cast x := x
  separates := by
    intro a b _ _ hgap heq
    rw [heq, sub_self] at hgap
    norm_num at hgap

/-- A flat field at the lowest resolution. -/
def flatField : HsMeshParams Rat :=
  ⟨4, 1, fun n => ⟨List.replicate (n * n) 0, List.length_replicate⟩⟩

/-- The indices of the flat field are in bounds, and its mesh is open. -/
theorem heightfield_not_watertight_flat :
    (∀ i ∈ (flatField.buildHsMesh (unrounded Rat)).indices,
      i < (flatField.buildHsMesh (unrounded Rat)).vertices.length) ∧
      ¬ (flatField.buildHsMesh (unrounded Rat)).Watertight :=
  HsMeshParams.heightfield_not_watertight flatField (unrounded Rat)

/-- Of four by four samples, the north side of the bottom stays open. -/
theorem flat_field_open :
    ¬ ∀ (p : HsMeshParams Rat) (fl : FloatCast Rat Rat),
      (∀ i ∈ (p.buildHsMesh fl).indices, i < (p.buildHsMesh fl).vertices.length) ∧
        (p.buildHsMesh fl).Watertight := by
  intro h
  let fl := unrounded Rat
  have hone := (h flatField fl).2 _ HsMeshParams.bottom_mem_solid
    ((HsMeshParams.corners fl)[0]?, (HsMeshParams.corners fl)[1]?) List.mem_cons_self
  have hzero : (flatField.buildHsMesh (unrounded Rat)).solid.countP
      (hasEdge ((HsMeshParams.corners (unrounded Rat))[1]?)
        ((HsMeshParams.corners (unrounded Rat))[0]?)) = 0 := by
    decide +kernel
  rw [hzero] at hone
  cases hone

end FractalStudio.Compute
