import FractalStudio.Lib.Numerals
import Mathlib

/-!
# Interpolation between knots

A value past the first of some knots and not past the last lies between two neighbours. What is
interpolated between two integers, and rounded, lies between them. A triangle wave of period 2 is
the distance to the nearest even number.
-/
namespace FractalStudio.Interpolation

section Knots
variable {α K : Type*} [LinearOrder K] {pos : α → K} {v : K} {first second left right : α}
  {knots : List α}

variable (pos v left right knots) in
/-- Two neighbours that a value lies between. -/
def Bracket : Prop := [left, right] <:+: knots ∧ pos left < v ∧ v ≤ pos right

theorem bracket_cons : Bracket pos v left right (first :: second :: knots) ↔
    (left = first ∧ right = second ∧ pos first < v ∧ v ≤ pos second) ∨
      Bracket pos v left right (second :: knots) := by
  have hprefix : [left, right] <+: first :: second :: knots ↔ left = first ∧ right = second := by
    rw [List.cons_prefix_cons, List.cons_prefix_cons]
    simp
  rw [Bracket, Bracket, List.infix_cons_iff, hprefix]
  constructor
  · rintro ⟨⟨rfl, rfl⟩ | hin, hlow, hhigh⟩
    · exact .inl ⟨rfl, rfl, hlow, hhigh⟩
    · exact .inr ⟨hin, hlow, hhigh⟩
  · rintro (⟨rfl, rfl, hlow, hhigh⟩ | ⟨hin, hlow, hhigh⟩)
    · exact ⟨.inl ⟨rfl, rfl⟩, hlow, hhigh⟩
    · exact ⟨.inr hin, hlow, hhigh⟩

theorem exists_bracket (hfirst : pos first < v) (hknots : ∃ knot ∈ knots, v ≤ pos knot) :
    ∃ left right, Bracket pos v left right (first :: knots) := by
  induction knots generalizing first with
  | nil =>
    obtain ⟨knot, hknot, -⟩ := hknots
    cases hknot
  | cons second rest ih =>
    by_cases hsecond : v ≤ pos second
    · exact ⟨first, second, bracket_cons.mpr (.inl ⟨rfl, rfl, hfirst, hsecond⟩)⟩
    · obtain ⟨knot, hknot, hle⟩ := hknots
      obtain rfl | hrest := List.mem_cons.mp hknot
      · exact absurd hle hsecond
      · obtain ⟨left, right, hbracket⟩ := ih (not_le.mp hsecond) ⟨knot, hrest, hle⟩
        exact ⟨left, right, bracket_cons.mpr (.inr hbracket)⟩

theorem exists_before (h : right ∈ knots) : ∃ left, [left, right] <:+: first :: knots := by
  induction knots generalizing first with
  | nil => cases h
  | cons second rest ih =>
    obtain rfl | hrest := List.mem_cons.mp h
    · exact ⟨first, List.infix_cons_iff.mpr (.inl ⟨rest, rfl⟩)⟩
    · obtain ⟨left, hin⟩ : ∃ left, [left, right] <:+: second :: rest := ih hrest
      exact ⟨left, List.infix_cons_iff.mpr (.inr hin)⟩

end Knots

section Rounding
variable {K : Type*} [Field K] [LinearOrder K] [IsStrictOrderedRing K]

theorem lineMap_between (a b : K) {u : K} (hlow : 0 ≤ u) (hhigh : u ≤ 1) :
    min a b ≤ AffineMap.lineMap a b u ∧ AffineMap.lineMap a b u ≤ max a b := by
  have hmem : AffineMap.lineMap a b u ∈ segment K a b := lineMap_mem_segment K a b ⟨hlow, hhigh⟩
  rw [segment_eq_uIcc] at hmem
  exact hmem

variable [FloorRing K]

theorem round_between {a b : ℤ} {x : K} (hlow : a ≤ x) (hhigh : x ≤ b) :
    a ≤ round x ∧ round x ≤ b := by
  have hhalf : (0 : K) < 1 / 2 := by positivity
  rw [round_eq, Int.le_floor, Int.floor_le_iff]
  constructor
  · linarith
  · linarith [one_half_lt_one (α := K)]

theorem round_lineMap_between (a b : ℤ) {u : K} (hlow : 0 ≤ u) (hhigh : u ≤ 1) :
    min a b ≤ round (AffineMap.lineMap (a : K) b u) ∧
      round (AffineMap.lineMap (a : K) b u) ≤ max a b := by
  obtain ⟨hmin, hmax⟩ := lineMap_between (a : K) b hlow hhigh
  rw [← Int.cast_min] at hmin
  rw [← Int.cast_max] at hmax
  exact round_between hmin hmax

/-- The distance to the nearest even number. -/
def triangleWave (v : K) : K := |v - 2 * round (v / 2)|

theorem triangleWave_eq (v : K) : triangleWave v =
    if 2 * Int.fract (v / 2) ≤ 1 then 2 * Int.fract (v / 2) else 2 - 2 * Int.fract (v / 2) := by
  have hscaled : v - 2 * round (v / 2) = 2 * (v / 2 - round (v / 2)) := by ring
  rw [triangleWave, hscaled, abs_mul, abs_two, abs_sub_round_eq_min]
  split
  · rw [min_eq_left (by linarith)]
  · rw [min_eq_right (by linarith)]
    ring

theorem triangleWave_mem (v : K) : 0 ≤ triangleWave v ∧ triangleWave v ≤ 1 := by
  have hlow := Int.fract_nonneg (v / 2)
  rw [triangleWave_eq]
  split
  · exact ⟨by linarith, by linarith⟩
  · have hhigh := Int.fract_lt_one (v / 2)
    exact ⟨by linarith, by linarith⟩

end Rounding

end FractalStudio.Interpolation
