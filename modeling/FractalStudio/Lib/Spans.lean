import Mathlib.Data.List.Basic
import Mathlib.Order.MinMax

/-!
# Spans that follow each other

A span is a pair of its first element and the one after its last. Spans tile a range when each
begins where the one before it ends; a loop with a step cuts a range into such spans.
-/
namespace FractalStudio.Spans

/-- The spans follow each other from the first bound to the second, and none is empty. -/
inductive Tiles : ℕ → ℕ → List (ℕ × ℕ) → Prop
  | nil (a : ℕ) : Tiles a a []
  | cons {a m b : ℕ} {rest : List (ℕ × ℕ)} :
      a < m → Tiles m b rest → Tiles a b ((a, m) :: rest)

variable {a b c m step : ℕ} {spans rest : List (ℕ × ℕ)}

namespace Tiles

theorem le (h : Tiles a b spans) : a ≤ b := by
  induction h with
  | nil a => exact Nat.le_refl a
  | cons hlt _ ih => omega

theorem append (h : Tiles a b spans) (h' : Tiles b c rest) : Tiles a c (spans ++ rest) := by
  induction h with
  | nil a => exact h'
  | cons hlt _ ih => exact .cons hlt (ih h')

theorem single (h : a < b) : Tiles a b [(a, b)] := .cons h (.nil b)

theorem grow (h : Tiles a m (spans ++ [(b, m)])) (hlt : m < c) : Tiles a c (spans ++ [(b, c)]) := by
  induction spans generalizing a with
  | nil =>
    cases h with
    | cons hb _ => exact single (by omega)
  | cons span spans ih =>
    cases h with
    | cons hb hrest => exact .cons hb (ih hrest)

theorem exists_mem (h : Tiles a b spans) {i : ℕ} (hlow : a ≤ i) (hhigh : i < b) :
    ∃ span ∈ spans, span.1 ≤ i ∧ i < span.2 := by
  induction h with
  | nil a => omega
  | @cons a m b rest hlt _ ih =>
    by_cases hi : i < m
    · exact ⟨(a, m), List.mem_cons_self, hlow, hi⟩
    · obtain ⟨span, hmem, hin⟩ := ih (by omega) hhigh
      exact ⟨span, List.mem_cons_of_mem _ hmem, hin⟩

theorem mem_bounds (h : Tiles a b spans) {span : ℕ × ℕ} (hmem : span ∈ spans) :
    a ≤ span.1 ∧ span.1 < span.2 ∧ span.2 ≤ b := by
  induction h with
  | nil a => exact absurd hmem List.not_mem_nil
  | @cons a m b rest hlt hrest ih =>
    have hle := hrest.le
    rcases List.mem_cons.mp hmem with rfl | hmem
    · exact ⟨Nat.le_refl _, hlt, hle⟩
    · have hbounds := ih hmem
      exact ⟨by omega, hbounds.2⟩

end Tiles

/-- The spans of `for (r = a; r < b; r += step)`. -/
def chop (step a b : ℕ) : List (ℕ × ℕ) :=
  if 0 < step ∧ a < b then (a, min b (a + step)) :: chop step (a + step) b else []
termination_by b - a

theorem chop_of_le (h : b ≤ a) : chop step a b = [] := by
  rw [chop, if_neg fun hlt => by omega]

theorem tiles_chop (hstep : 0 < step) (hab : a ≤ b) : Tiles a b (chop step a b) := by
  induction a using chop.induct step b with
  | case1 a h ih =>
    rw [chop, if_pos h]
    by_cases hlast : a + step ≤ b
    · rw [Nat.min_eq_right hlast]
      exact .cons (by omega) (ih hlast)
    · rw [Nat.min_eq_left (by omega), chop_of_le (by omega)]
      exact .single h.2
  | case2 a h =>
    rw [chop, if_neg h]
    obtain rfl : a = b := by omega
    exact .nil a

end FractalStudio.Spans
