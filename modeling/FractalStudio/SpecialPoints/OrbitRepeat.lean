import FractalStudio.Compute.OrbitSequence
import Mathlib

/-!
# Repeats of a critical orbit

`classify_orbit_with_step` of `special_points.cpp`: the orbit of 0 is kept in a grid of cells as wide
as the tolerance, and a new point is compared with the points in the nine cells around its own.
Arithmetic is exact; distances are squared. A step has no value where the code's is not finite.
-/
namespace FractalStudio.SpecialPoints

open Compute

variable {K : Type} [Field K] [LinearOrder K] [FloorRing K]

def intMax : ℕ := 2147483647

def longMin : ℤ := -9223372036854775808

def longMax : ℤ := 9223372036854775807

structure OrbitCell where
  x : ℤ
  y : ℤ
deriving DecidableEq

/-- `std::numeric_limits<long long>::max()` as a double is one more than the integer. -/
def orbitCellCoord (value cellSize : K) : ℤ :=
  let q := ⌊value / cellSize⌋
  if q ≤ longMin then longMin else if q ≥ longMax + 1 then longMax else q

def orbitCell (z : Cx K) (cellSize : K) : OrbitCell :=
  ⟨orbitCellCoord z.re cellSize, orbitCellCoord z.im cellSize⟩

def orbitCellOffset (value delta : ℤ) : ℤ :=
  if delta < 0 ∧ value = longMin then value
  else if 0 < delta ∧ value = longMax then value
  else value + delta

omit [FloorRing K] [LinearOrder K] in
def distSq (a b : Cx K) : K := (a.re - b.re) * (a.re - b.re) + (a.im - b.im) * (a.im - b.im)

/-- `std::abs(a - b) < eps`. -/
def Near (eps : K) (a b : Cx K) : Prop := 0 < eps ∧ distSq a b < eps * eps

instance (eps : K) (a b : Cx K) : Decidable (Near eps a b) :=
  inferInstanceAs (Decidable (_ ∧ _))

structure OrbitClassification (K : Type) where
  foundRepeat : Bool
  isCenter : Bool
  isMisiurewicz : Bool
  preperiod : ℤ
  period : ℤ
  repeatErrorSq : K
  orbit : List (Cx K)

/-- The best pair so far. -/
structure Best (K : Type) where
  i : ℕ
  j : ℤ
  errSq : K

structure RepeatState (K : Type) where
  orbit : List (Cx K)
  cells : OrbitCell → List ℕ
  best : Best K

def cellSize (eps : K) : K := max eps (1 / 4503599627370496)

def insertOrbitPoint (size : K) (index : ℕ) (point : Cx K) (cells : OrbitCell → List ℕ) :
    OrbitCell → List ℕ :=
  Function.update cells (orbitCell point size) (cells (orbitCell point size) ++ [index])

def compareWith (eps : K) (orbit : List (Cx K)) (j : ℕ) (point : Cx K) (best : Best K) (i : ℕ) :
    Best K :=
  let other := orbit.getD i ⟨0, 0⟩
  if Near eps point other ∧ (i < best.i ∨ (i = best.i ∧ (best.j < 0 ∨ (j : ℤ) < best.j))) then
    ⟨i, j, distSq point other⟩
  else best

def offsets : List ℤ := [-1, 0, 1]

def checkRepeats (eps : K) (j : ℕ) (point : Cx K) (s : RepeatState K) : Best K :=
  let base := orbitCell point (cellSize eps)
  offsets.foldl (fun best dy => offsets.foldl (fun best dx =>
    (s.cells ⟨orbitCellOffset base.x dx, orbitCellOffset base.y dy⟩).foldl
      (compareWith eps s.orbit j point) best) best) s.best

/-- The loop from turn `n` on; whether it was cancelled, and the state. -/
def classifyLoop (eps : K) (step : Cx K → Cx K → Option (Cx K)) (c : Cx K)
    (cancelRequested : ℕ → Bool) : ℕ → ℕ → Cx K → RepeatState K → Bool × RepeatState K
  | 0, _, _, s => (false, s)
  | turns + 1, n, z, s =>
    if (n = 1 ∨ n % 64 = 0) ∧ cancelRequested n then (true, s)
    else
      match step z c with
      | none => (false, s)
      | some z =>
        let s := ⟨s.orbit ++ [z], insertOrbitPoint (cellSize eps) n z s.cells,
          checkRepeats eps n z s⟩
        if s.best.i = 0 then (false, s) else classifyLoop eps step c cancelRequested turns (n + 1) z s

/-- `cancelRequested n` is the answer of the probe in turn `n`; without a probe it is `false`. -/
def classifyOrbitWithStep (c : Cx K) (maxIter : ℕ) (eps : K)
    (step : Cx K → Cx K → Option (Cx K)) (cancelRequested : ℕ → Bool) : OrbitClassification K :=
  let z : Cx K := ⟨0, 0⟩
  let start : RepeatState K :=
    ⟨[z], insertOrbitPoint (cellSize eps) 0 z fun _ => [], ⟨intMax, -1, 0⟩⟩
  let done := classifyLoop eps step c cancelRequested maxIter 1 z start
  let orbit := done.2.orbit
  let best := done.2.best
  if done.1 then ⟨false, false, false, -1, -1, 0, orbit⟩
  else if best.i ≠ intMax then
    ⟨true, best.i = 0, 0 < best.i, best.i, best.j - best.i, best.errSq, orbit⟩
  else ⟨false, false, false, -1, -1, 0, orbit⟩

omit [LinearOrder K] [FloorRing K] in
def mandelbrotStep (z c : Cx K) : Option (Cx K) :=
  some ⟨z.re * z.re - z.im * z.im + c.re, z.re * z.im + z.im * z.re + c.im⟩

def classifyCriticalOrbitMandelbrot (c : Cx K) (maxIter : ℕ) (eps : K)
    (cancelRequested : ℕ → Bool) : OrbitClassification K :=
  classifyOrbitWithStep c maxIter eps mandelbrotStep cancelRequested

/-! ## What the search is for -/

/-- The orbit of 0, as far as its values are finite. -/
def orbitAt (step : Cx K → Cx K → Option (Cx K)) (c : Cx K) : ℕ → Option (Cx K)
  | 0 => some ⟨0, 0⟩
  | n + 1 => (orbitAt step c n).bind fun z => step z c

/-- A pair of indices at which the values are near to each other. -/
def Repeats (eps : K) (orbit : ℕ → Option (Cx K)) (i j : ℕ) : Prop :=
  i < j ∧ ∃ a b, orbit i = some a ∧ orbit j = some b ∧ Near eps a b

/-- The least first index, and for it the least second one. -/
structure Earliest (P : ℕ → ℕ → Prop) (i j : ℕ) : Prop where
  holds : P i j
  first : ∀ i' j', P i' j' → i ≤ i'
  second : ∀ j', P i j' → j ≤ j'

theorem Earliest.congr {P Q : ℕ → ℕ → Prop} {i j : ℕ} (h : Earliest P i j)
    (hPQ : ∀ i j, Q i j ↔ P i j) : Earliest Q i j :=
  ⟨(hPQ i j).mpr h.holds, fun i' j' hQ => h.first i' j' ((hPQ i' j').mp hQ),
    fun j' hQ => h.second j' ((hPQ i j').mp hQ)⟩

/-- A classification says what the comparison of all pairs would say. -/
structure Classifies (P : ℕ → ℕ → Prop) (out : OrbitClassification K) : Prop where
  found : out.foundRepeat = true ↔ ∃ i j, P i j
  earliest : out.foundRepeat = true →
    ∃ i j, Earliest P i j ∧ out.preperiod = i ∧ out.period = j - i

section Cells
variable [IsStrictOrderedRing K] {eps : K}

theorem floor_le_floor_add_one {x y : K} (h : x < y + 1) : ⌊x⌋ ≤ ⌊y⌋ + 1 := by
  rw [← Int.floor_add_one]
  exact Int.floor_mono h.le

theorem exists_offset {size x y : K} (hsize : 0 < size) (h : |x - y| < size) :
    ∃ d ∈ offsets, orbitCellOffset (orbitCellCoord x size) d = orbitCellCoord y size := by
  obtain ⟨hlow, hhigh⟩ := abs_lt.mp h
  have hx : ⌊x / size⌋ ≤ ⌊y / size⌋ + 1 := by
    apply floor_le_floor_add_one
    rw [div_add_one hsize.ne', div_lt_div_iff_of_pos_right hsize]
    linarith
  have hy : ⌊y / size⌋ ≤ ⌊x / size⌋ + 1 := by
    apply floor_le_floor_add_one
    rw [div_add_one hsize.ne', div_lt_div_iff_of_pos_right hsize]
    linarith
  refine ⟨orbitCellCoord y size - orbitCellCoord x size, ?_, ?_⟩
  · have hnear : orbitCellCoord y size - orbitCellCoord x size = -1 ∨
        orbitCellCoord y size - orbitCellCoord x size = 0 ∨
        orbitCellCoord y size - orbitCellCoord x size = 1 := by
      simp only [orbitCellCoord, longMin, longMax]
      omega
    simp only [offsets, List.mem_cons, List.not_mem_nil, or_false]
    exact hnear
  · have hbounds (z : K) : longMin ≤ orbitCellCoord z size ∧ orbitCellCoord z size ≤ longMax := by
      simp only [orbitCellCoord, longMin, longMax]
      omega
    have hbx := hbounds x
    have hby := hbounds y
    rw [orbitCellOffset, if_neg (by omega), if_neg (by omega)]
    omega

omit [FloorRing K] [IsStrictOrderedRing K] in
theorem near_comm {a b : Cx K} : Near eps a b ↔ Near eps b a := by
  have hdist : distSq a b = distSq b a := by
    rw [distSq, distSq]
    ring
  rw [Near, Near, hdist]

omit [FloorRing K] [IsStrictOrderedRing K] in
theorem cellSize_pos {eps : K} (h : 0 < eps) : 0 < cellSize eps := h.trans_le (le_max_left _ _)

omit [FloorRing K] in
theorem Near.coordinates {a b : Cx K} (h : Near eps a b) :
    |a.re - b.re| < cellSize eps ∧ |a.im - b.im| < cellSize eps := by
  obtain ⟨heps, hdist⟩ := h
  have hle : eps ≤ cellSize eps := le_max_left _ _
  rw [distSq] at hdist
  have hre := mul_self_nonneg (a.re - b.re)
  have him := mul_self_nonneg (a.im - b.im)
  constructor
  · refine (abs_lt_of_sq_lt_sq ?_ heps.le).trans_le hle
    rw [pow_two, pow_two]
    linarith
  · refine (abs_lt_of_sq_lt_sq ?_ heps.le).trans_le hle
    rw [pow_two, pow_two]
    linarith

end Cells

section BestPair
variable {eps : K} {orbit : List (Cx K)} {j : ℕ} {point : Cx K} {best : Best K}

/-- Nothing is found yet, or the pair that is kept is the earliest one. -/
def BestOf (P : ℕ → ℕ → Prop) (best : Best K) : Prop :=
  (best.i = intMax ∧ ∀ i j, ¬ P i j) ∨
    (best.i < intMax ∧ ∃ j : ℕ, best.j = j ∧ Earliest P best.i j)

omit [Field K] [LinearOrder K] [FloorRing K] in
theorem BestOf.congr {P Q : ℕ → ℕ → Prop} (h : BestOf P best) (hPQ : ∀ i j, Q i j ↔ P i j) :
    BestOf Q best := by
  obtain ⟨hi, hnone⟩ | ⟨hi, j, hj, hearliest⟩ := h
  · exact .inl ⟨hi, fun i j hQ => hnone i j ((hPQ i j).mp hQ)⟩
  · exact .inr ⟨hi, j, hj, hearliest.congr hPQ⟩

omit [FloorRing K] in
theorem BestOf.compareWith {P : ℕ → ℕ → Prop} (h : BestOf P best)
    (hlast : ∀ i' j', P i' j' → j' ≤ j) {i : ℕ} (hi : i < intMax) :
    BestOf (fun i' j' => P i' j' ∨ (i' = i ∧ j' = j ∧ Near eps point (orbit.getD i ⟨0, 0⟩)))
      (compareWith eps orbit j point best i) := by
  rw [SpecialPoints.compareWith]
  obtain ⟨hnone, hempty⟩ | ⟨hlt, k, hk, hbest⟩ := h
  · split
    · next hhit =>
      refine .inr ⟨hi, j, rfl, .inr ⟨rfl, rfl, hhit.1⟩, ?_, ?_⟩
      · rintro i' j' (hP | ⟨rfl, -, -⟩)
        · exact absurd hP (hempty i' j')
        · exact le_rfl
      · rintro j' (hP | ⟨-, rfl, -⟩)
        · exact absurd hP (hempty i j')
        · exact le_rfl
    · next hmiss =>
      refine .inl ⟨hnone, ?_⟩
      rintro i' j' (hP | ⟨-, -, hnear⟩)
      · exact hempty i' j' hP
      · exact hmiss ⟨hnear, .inl (by omega)⟩
  · have hkj := hlast _ _ hbest.holds
    split
    · next hhit =>
      obtain ⟨hnear, hless⟩ := hhit
      have hfirst : i < best.i := by omega
      refine .inr ⟨hi, j, rfl, .inr ⟨rfl, rfl, hnear⟩, ?_, ?_⟩
      · rintro i' j' (hP | ⟨rfl, -, -⟩)
        · exact hfirst.le.trans (hbest.first i' j' hP)
        · exact le_rfl
      · rintro j' (hP | ⟨-, rfl, -⟩)
        · have hle := hbest.first i j' hP
          omega
        · exact le_rfl
    · next hmiss =>
      refine .inr ⟨hlt, k, hk, .inl hbest.holds, ?_, ?_⟩
      · rintro i' j' (hP | ⟨rfl, -, hnear⟩)
        · exact hbest.first i' j' hP
        · by_contra hless
          exact hmiss ⟨hnear, .inl (by omega)⟩
      · rintro j' (hP | ⟨-, rfl, -⟩)
        · exact hbest.second j' hP
        · exact hkj

omit [FloorRing K] in
theorem BestOf.foldl {P : ℕ → ℕ → Prop} (h : BestOf P best)
    (hlast : ∀ i' j', P i' j' → j' ≤ j) (indices : List ℕ) (hi : ∀ i ∈ indices, i < intMax) :
    BestOf (fun i' j' => P i' j' ∨
        (i' ∈ indices ∧ j' = j ∧ Near eps point (orbit.getD i' ⟨0, 0⟩)))
      (indices.foldl (SpecialPoints.compareWith eps orbit j point) best) := by
  induction indices generalizing P best with
  | nil =>
    apply h.congr
    intro i' j'
    constructor
    · rintro (hP | ⟨hmem, -⟩)
      · exact hP
      · exact absurd hmem List.not_mem_nil
    · exact .inl
  | cons i indices ih =>
    have hstep : BestOf
        (fun i' j' => P i' j' ∨ (i' = i ∧ j' = j ∧ Near eps point (orbit.getD i ⟨0, 0⟩)))
        (SpecialPoints.compareWith eps orbit j point best i) :=
      h.compareWith hlast (hi i List.mem_cons_self)
    have hlast' : ∀ i' j',
        (P i' j' ∨ (i' = i ∧ j' = j ∧ Near eps point (orbit.getD i ⟨0, 0⟩))) → j' ≤ j := by
      rintro i' j' (hP | ⟨-, rfl, -⟩)
      · exact hlast i' j' hP
      · exact le_rfl
    apply (ih hstep hlast' fun i' hmem => hi i' (List.mem_cons_of_mem _ hmem)).congr
    intro i' j'
    rw [List.mem_cons, or_assoc]
    apply or_congr_right
    constructor
    · rintro ⟨rfl | hmem, hrest⟩
      · exact .inl ⟨rfl, hrest⟩
      · exact .inr ⟨hmem, hrest⟩
    · rintro (⟨rfl, hrest⟩ | ⟨hmem, hrest⟩)
      · exact ⟨.inl rfl, hrest⟩
      · exact ⟨.inr hmem, hrest⟩

end BestPair

section Loop
variable [IsStrictOrderedRing K] {eps : K} {step : Cx K → Cx K → Option (Cx K)} {c : Cx K}
  {m : ℕ} {z : Cx K} {s : RepeatState K}

/-- The state after `m` turns: the first values of the orbit, each in its cell, and the earliest
pair among them. -/
structure Scanned (eps : K) (step : Cx K → Cx K → Option (Cx K)) (c : Cx K) (m : ℕ) (z : Cx K)
    (s : RepeatState K) : Prop where
  length : s.orbit.length = m + 1
  values : ∀ k ≤ m, s.orbit[k]? = orbitAt step c k
  current : orbitAt step c m = some z
  cells : ∀ cell i, i ∈ s.cells cell ↔
    ∃ a, s.orbit[i]? = some a ∧ orbitCell a (cellSize eps) = cell
  best : BestOf (Repeats eps fun k => s.orbit[k]?) s.best

theorem Scanned.candidate (h : Scanned eps step c m z s) {point a : Cx K} {i : ℕ}
    (ha : s.orbit[i]? = some a) (hnear : Near eps point a) :
    i ∈ offsets.flatMap fun dy => offsets.flatMap fun dx =>
      s.cells ⟨orbitCellOffset (orbitCell point (cellSize eps)).x dx,
        orbitCellOffset (orbitCell point (cellSize eps)).y dy⟩ := by
  have hsize := cellSize_pos hnear.1
  obtain ⟨hre, him⟩ := hnear.coordinates
  obtain ⟨dx, hdx, hx⟩ := exists_offset hsize hre
  obtain ⟨dy, hdy, hy⟩ := exists_offset hsize him
  rw [List.mem_flatMap]
  refine ⟨dy, hdy, ?_⟩
  rw [List.mem_flatMap]
  refine ⟨dx, hdx, ?_⟩
  rw [h.cells]
  refine ⟨a, ha, ?_⟩
  rw [orbitCell, orbitCell, hx, hy]

omit [IsStrictOrderedRing K] in
theorem checkRepeats_eq (eps : K) (j : ℕ) (point : Cx K) (s : RepeatState K) :
    checkRepeats eps j point s = (offsets.flatMap fun dy => offsets.flatMap fun dx =>
      s.cells ⟨orbitCellOffset (orbitCell point (cellSize eps)).x dx,
        orbitCellOffset (orbitCell point (cellSize eps)).y dy⟩).foldl
      (compareWith eps s.orbit j point) s.best := by
  rw [List.foldl_flatMap]
  simp only [List.foldl_flatMap]
  rfl

omit [Field K] [LinearOrder K] [FloorRing K] [IsStrictOrderedRing K] in
theorem getElem?_concat_eq_some {orbit : List (Cx K)} {a b : Cx K} {i : ℕ} :
    (orbit ++ [b])[i]? = some a ↔ orbit[i]? = some a ∨ (i = orbit.length ∧ a = b) := by
  rcases Nat.lt_trichotomy i orbit.length with hlt | rfl | hgt
  · rw [List.getElem?_append_left hlt]
    exact (or_iff_left fun h => hlt.ne h.1).symm
  · rw [List.getElem?_concat_length, List.getElem?_eq_none le_rfl, Option.some_inj, eq_comm]
    simp
  · have hlength : (orbit ++ [b]).length = orbit.length + 1 := List.length_append
    rw [List.getElem?_eq_none (by omega), List.getElem?_eq_none (by omega)]
    constructor
    · intro h
      cases h
    · rintro (h | ⟨rfl, -⟩)
      · cases h
      · omega

omit [IsStrictOrderedRing K] in
theorem mem_insertOrbitPoint {size : K} {index i : ℕ} {point : Cx K} {cells : OrbitCell → List ℕ}
    {cell : OrbitCell} :
    i ∈ insertOrbitPoint size index point cells cell ↔
      i ∈ cells cell ∨ (i = index ∧ orbitCell point size = cell) := by
  by_cases hcell : cell = orbitCell point size
  · subst hcell
    rw [insertOrbitPoint, Function.update_self, List.mem_append, List.mem_singleton,
      and_iff_left rfl]
  · rw [insertOrbitPoint, Function.update_of_ne hcell]
    exact (or_iff_left fun h => hcell h.2.symm).symm

theorem Scanned.repeats_concat (h : Scanned eps step c m z s) (point : Cx K) (i j : ℕ) :
    Repeats eps (fun k => (s.orbit ++ [point])[k]?) i j ↔
      Repeats eps (fun k => s.orbit[k]?) i j ∨
        (i ∈ (offsets.flatMap fun dy => offsets.flatMap fun dx =>
          s.cells ⟨orbitCellOffset (orbitCell point (cellSize eps)).x dx,
            orbitCellOffset (orbitCell point (cellSize eps)).y dy⟩) ∧
          j = m + 1 ∧ Near eps point (s.orbit.getD i ⟨0, 0⟩)) := by
  constructor
  · rintro ⟨hlt, a, b, ha, hb, hnear⟩
    have hfirst : s.orbit[i]? = some a := by
      obtain hi | ⟨rfl, -⟩ := getElem?_concat_eq_some.mp ha
      · exact hi
      · have hj := (List.getElem?_eq_some_iff.mp hb).1
        rw [List.length_append, List.length_singleton] at hj
        omega
    obtain hj | ⟨rfl, rfl⟩ := getElem?_concat_eq_some.mp hb
    · exact .inl ⟨hlt, a, b, hfirst, hj, hnear⟩
    · right
      rw [List.getD_eq_getElem?_getD, hfirst]
      exact ⟨h.candidate hfirst (near_comm.mp hnear), h.length, near_comm.mp hnear⟩
  · rintro (⟨hlt, a, b, ha, hb, hnear⟩ | ⟨hmem, rfl, hnear⟩)
    · exact ⟨hlt, a, b, getElem?_concat_eq_some.mpr (.inl ha),
        getElem?_concat_eq_some.mpr (.inl hb), hnear⟩
    · simp only [List.mem_flatMap] at hmem
      obtain ⟨dy, -, dx, -, hmem⟩ := hmem
      obtain ⟨a, ha, -⟩ := (h.cells _ _).mp hmem
      have hi := (List.getElem?_eq_some_iff.mp ha).1
      rw [List.getD_eq_getElem?_getD, ha] at hnear
      exact ⟨h.length ▸ hi, a, point, getElem?_concat_eq_some.mpr (.inl ha),
        getElem?_concat_eq_some.mpr (.inr ⟨h.length.symm, rfl⟩), near_comm.mp hnear⟩

theorem Scanned.turn (h : Scanned eps step c m z s) (hm : m + 1 ≤ intMax) {point : Cx K}
    (hstep : step z c = some point) :
    Scanned eps step c (m + 1) point
      ⟨s.orbit ++ [point], insertOrbitPoint (cellSize eps) (m + 1) point s.cells,
        checkRepeats eps (m + 1) point s⟩ := by
  have hnext : orbitAt step c (m + 1) = some point := by
    rw [orbitAt, h.current]
    exact hstep
  have hlength := h.length
  refine ⟨?_, ?_, hnext, ?_, ?_⟩
  · rw [List.length_append, List.length_singleton, hlength]
  · intro k hk
    obtain hk | rfl := Nat.le_or_eq_of_le_succ hk
    · show (s.orbit ++ [point])[k]? = _
      rw [List.getElem?_append_left (by omega), h.values k hk]
    · rw [hnext, getElem?_concat_eq_some]
      exact .inr ⟨hlength.symm, rfl⟩
  · intro cell i
    show i ∈ insertOrbitPoint (cellSize eps) (m + 1) point s.cells cell ↔ _
    rw [mem_insertOrbitPoint, h.cells]
    constructor
    · rintro (⟨a, ha, hcell⟩ | ⟨rfl, hcell⟩)
      · exact ⟨a, getElem?_concat_eq_some.mpr (.inl ha), hcell⟩
      · exact ⟨point, getElem?_concat_eq_some.mpr (.inr ⟨hlength.symm, rfl⟩), hcell⟩
    · rintro ⟨a, ha, hcell⟩
      obtain ha | ⟨rfl, rfl⟩ := getElem?_concat_eq_some.mp ha
      · exact .inl ⟨a, ha, hcell⟩
      · exact .inr ⟨hlength, hcell⟩
  · show BestOf _ (checkRepeats eps (m + 1) point s)
    rw [checkRepeats_eq]
    refine (h.best.foldl ?_ _ ?_).congr (h.repeats_concat point)
    · rintro i j ⟨-, -, b, -, hb, -⟩
      have hj := (List.getElem?_eq_some_iff.mp hb).1
      omega
    · intro i hmem
      simp only [List.mem_flatMap] at hmem
      obtain ⟨dy, -, dx, -, hmem⟩ := hmem
      obtain ⟨a, ha, -⟩ := (h.cells _ _).mp hmem
      have hi := (List.getElem?_eq_some_iff.mp ha).1
      omega

theorem Scanned.loop (h : Scanned eps step c m z s) {cancelRequested : ℕ → Bool}
    (hquiet : ∀ n, cancelRequested n = false) (turns : ℕ) (hturns : m + turns ≤ intMax) :
    let done := classifyLoop eps step c cancelRequested turns (m + 1) z s
    done.1 = false ∧ ∃ m' z', m' ≤ m + turns ∧ Scanned eps step c m' z' done.2 ∧
      (done.2.best.i = 0 ∨ m' = m + turns ∨ orbitAt step c (m' + 1) = none) := by
  induction turns generalizing m z s with
  | zero => exact ⟨rfl, m, z, le_rfl, h, .inr (.inl rfl)⟩
  | succ turns ih =>
    have hgo : ¬ ((m + 1 = 1 ∨ (m + 1) % 64 = 0) ∧ cancelRequested (m + 1) = true) := by
      rw [hquiet]
      exact fun hstop => Bool.false_ne_true hstop.2
    rw [classifyLoop, if_neg hgo]
    cases hstep : step z c with
    | none =>
      refine ⟨rfl, m, z, Nat.le_add_right _ _, h, .inr (.inr ?_)⟩
      rw [orbitAt, h.current]
      exact hstep
    | some point =>
      have hturn := h.turn (by omega) hstep
      dsimp only
      split
      · next hcentre => exact ⟨rfl, m + 1, point, by omega, hturn, .inl hcentre⟩
      · have hsum : m + (turns + 1) = m + 1 + turns := by omega
        rw [hsum]
        exact ih hturn (by omega)

end Loop

section Classification
variable [IsStrictOrderedRing K] {eps : K} {step : Cx K → Cx K → Option (Cx K)} {c : Cx K}

omit [LinearOrder K] [FloorRing K] [IsStrictOrderedRing K] in
theorem orbitAt_none {n k : ℕ} (h : orbitAt step c n = none) (hk : n ≤ k) :
    orbitAt step c k = none := by
  induction k, hk using Nat.le_induction with
  | base => exact h
  | succ k _ ih =>
    rw [orbitAt, ih]
    rfl

omit [IsStrictOrderedRing K] in
theorem Scanned.repeats_iff {m : ℕ} {z : Cx K} {s : RepeatState K} (h : Scanned eps step c m z s)
    (i j : ℕ) : Repeats eps (fun k => s.orbit[k]?) i j ↔
      j ≤ m ∧ Repeats eps (orbitAt step c) i j := by
  have hlength := h.length
  constructor
  · rintro ⟨hlt, a, b, ha, hb, hnear⟩
    have hj : j ≤ m := by
      have hj := (List.getElem?_eq_some_iff.mp hb).1
      omega
    exact ⟨hj, hlt, a, b, (h.values i (by omega)).symm.trans ha, (h.values j hj).symm.trans hb,
      hnear⟩
  · rintro ⟨hj, hlt, a, b, ha, hb, hnear⟩
    exact ⟨hlt, a, b, (h.values i (by omega)).trans ha, (h.values j hj).trans hb, hnear⟩

omit [IsStrictOrderedRing K] in
theorem Scanned.bestOf_all {m maxIter : ℕ} {z : Cx K} {s : RepeatState K}
    (h : Scanned eps step c m z s) (hm : m ≤ maxIter)
    (hend : s.best.i = 0 ∨ m = maxIter ∨ orbitAt step c (m + 1) = none) :
    BestOf (fun i j => j ≤ maxIter ∧ Repeats eps (orbitAt step c) i j) s.best := by
  obtain hcentre | hlast := hend
  · obtain ⟨hi, -⟩ | ⟨hi, j, hj, hbest⟩ := h.best
    · exact absurd (hcentre.symm.trans hi) (by decide)
    · rw [hcentre] at hbest
      have hholds := (h.repeats_iff 0 j).mp hbest.holds
      refine .inr ⟨hi, j, hj, ?_⟩
      rw [hcentre]
      refine ⟨⟨hholds.1.trans hm, hholds.2⟩, fun i' _ _ => Nat.zero_le i', ?_⟩
      rintro j' ⟨-, hpair⟩
      by_cases hj' : j' ≤ m
      · exact hbest.second j' ((h.repeats_iff 0 j').mpr ⟨hj', hpair⟩)
      · have hle := hholds.1
        omega
  · apply h.best.congr
    intro i j
    rw [h.repeats_iff]
    apply and_congr_left
    rintro ⟨-, -, b, -, hb, -⟩
    constructor
    · intro hj
      by_contra hlt
      obtain rfl | hnone := hlast
      · exact hlt hj
      · rw [orbitAt_none hnone (by omega)] at hb
        cases hb
    · exact fun hj => hj.trans hm

omit [Field K] [LinearOrder K] [FloorRing K] [IsStrictOrderedRing K] in
theorem BestOf.classifies {P : ℕ → ℕ → Prop} {best : Best K} (h : BestOf P best) (zero : K)
    (orbit : List (Cx K)) :
    Classifies P (if best.i ≠ intMax then
      ⟨true, best.i = 0, 0 < best.i, best.i, best.j - best.i, best.errSq, orbit⟩
      else ⟨false, false, false, -1, -1, zero, orbit⟩ : OrbitClassification K) := by
  obtain ⟨hi, hnone⟩ | ⟨hi, j, hj, hbest⟩ := h
  · rw [if_neg (not_not.mpr hi)]
    refine ⟨⟨fun hfound => absurd hfound Bool.false_ne_true, ?_⟩,
      fun hfound => absurd hfound Bool.false_ne_true⟩
    rintro ⟨i, j, hP⟩
    exact absurd hP (hnone i j)
  · rw [if_pos hi.ne]
    refine ⟨⟨fun _ => ⟨best.i, j, hbest.holds⟩, fun _ => rfl⟩, fun _ => ⟨best.i, j, hbest, rfl, ?_⟩⟩
    show best.j - _ = _
    rw [hj]

omit [IsStrictOrderedRing K] in
theorem scanned_start (eps : K) (step : Cx K → Cx K → Option (Cx K)) (c : Cx K) :
    Scanned eps step c 0 ⟨0, 0⟩
      ⟨[⟨0, 0⟩], insertOrbitPoint (cellSize eps) 0 ⟨0, 0⟩ fun _ => [], ⟨intMax, -1, 0⟩⟩ := by
  refine ⟨rfl, ?_, rfl, ?_, .inl ⟨rfl, ?_⟩⟩
  · intro k hk
    obtain rfl := Nat.le_zero.mp hk
    rfl
  · intro cell i
    show i ∈ insertOrbitPoint (cellSize eps) 0 ⟨0, 0⟩ (fun _ => []) cell ↔ _
    rw [mem_insertOrbitPoint]
    constructor
    · rintro (hmem | ⟨rfl, hcell⟩)
      · exact absurd hmem List.not_mem_nil
      · exact ⟨_, rfl, hcell⟩
    · rintro ⟨a, ha, hcell⟩
      cases i with
      | zero =>
        cases ha
        exact .inr ⟨rfl, hcell⟩
      | succ i => cases ha
  · rintro i j ⟨hlt, a, b, -, hb, -⟩
    have hj := (List.getElem?_eq_some_iff.mp hb).1
    rw [List.length_singleton] at hj
    omega

/-- The classification is that of a comparison of all pairs, of the orbit that it keeps as well as
of the whole orbit. -/
theorem classify_orbit_repeat (eps : K) (step : Cx K → Cx K → Option (Cx K)) (c : Cx K)
    {maxIter : ℕ} (hmax : maxIter ≤ intMax) {cancelRequested : ℕ → Bool}
    (hquiet : ∀ n, cancelRequested n = false) :
    let out := classifyOrbitWithStep c maxIter eps step cancelRequested
    (∃ m ≤ maxIter, out.orbit.length = m + 1 ∧ ∀ k ≤ m, out.orbit[k]? = orbitAt step c k) ∧
      Classifies (Repeats eps fun k => out.orbit[k]?) out ∧
      Classifies (fun i j => j ≤ maxIter ∧ Repeats eps (orbitAt step c) i j) out := by
  obtain ⟨hrun, m, z, hm, hscanned, hend⟩ :=
    (scanned_start eps step c).loop hquiet maxIter (by omega)
  simp only [Nat.zero_add] at hrun hscanned hend hm
  have hout : classifyOrbitWithStep c maxIter eps step cancelRequested = _ :=
    if_neg (by rw [hrun]; exact Bool.false_ne_true)
  have horbit : (classifyOrbitWithStep c maxIter eps step cancelRequested).orbit =
      (classifyLoop eps step c cancelRequested maxIter 1 ⟨0, 0⟩
        ⟨[⟨0, 0⟩], insertOrbitPoint (cellSize eps) 0 ⟨0, 0⟩ fun _ => [], ⟨intMax, -1, 0⟩⟩).2.orbit := by
    rw [hout]
    split <;> rfl
  dsimp only
  rw [horbit]
  refine ⟨⟨m, hm, hscanned.length, hscanned.values⟩, ?_, ?_⟩
  · rw [hout]
    exact hscanned.best.classifies 0 _
  · rw [hout]
    exact (hscanned.bestOf_all hm hend).classifies 0 _

/-- The orbit 0, -1, 0 of a centre of period 2. -/
theorem classify_orbit_repeat_centre :
    Classifies
      (fun i j => j ≤ 10 ∧
        Repeats (1 / 100) (orbitAt mandelbrotStep (⟨-1, 0⟩ : Cx ℚ)) i j)
      (classifyCriticalOrbitMandelbrot (⟨-1, 0⟩ : Cx ℚ) 10 (1 / 100) fun _ => false) :=
  (classify_orbit_repeat (1 / 100) mandelbrotStep (⟨-1, 0⟩ : Cx ℚ) (by decide) fun _ => rfl).2.2

example :
    (classifyCriticalOrbitMandelbrot (⟨-1, 0⟩ : Cx ℚ) 10 (1 / 100) fun _ => false).period = 2 := by
  decide +kernel

end Classification

end FractalStudio.SpecialPoints
