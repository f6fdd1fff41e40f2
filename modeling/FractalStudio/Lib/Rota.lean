import Mathlib

/-!
# Turns that repeat

A rota gives each entry a span of time; when the last one is over, the first begins again. The
entry on turn is found by taking the spans away from the offset, one after the other.
-/
namespace FractalStudio.Rota

def entryAt : List ℤ → ℤ → Option ℕ
  | [], _ => none
  | span :: spans, offset =>
    if offset < span then some 0 else (entryAt spans (offset - span)).map (· + 1)

/-- Where an entry begins. -/
def startOf (spans : List ℤ) (k : ℕ) : ℤ := (spans.take k).sum

variable {spans : List ℤ} {span offset : ℤ} {k : ℕ}

@[simp] theorem startOf_zero : startOf spans 0 = 0 := by rw [startOf, List.take_zero, List.sum_nil]

@[simp] theorem startOf_cons_succ : startOf (span :: spans) (k + 1) = span + startOf spans k := by
  rw [startOf, startOf, List.take_succ_cons, List.sum_cons]

theorem startOf_nonneg (h : ∀ span ∈ spans, 0 < span) (k : ℕ) : 0 ≤ startOf spans k := by
  refine List.sum_nonneg fun x hx => ?_
  exact (h x (List.mem_of_mem_take hx)).le

theorem entryAt_eq_some_iff (h : ∀ span ∈ spans, 0 < span) (hlow : 0 ≤ offset) :
    entryAt spans offset = some k ↔
      ∃ hk : k < spans.length, startOf spans k ≤ offset ∧ offset < startOf spans k + spans[k] := by
  induction spans generalizing offset k with
  | nil => simp [entryAt]
  | cons span spans ih =>
    have hspans : ∀ x ∈ spans, 0 < x := fun x hx => h x (List.mem_cons_of_mem _ hx)
    rw [entryAt]
    by_cases hin : offset < span
    · rw [if_pos hin]
      cases k with
      | zero => simp [hlow, hin]
      | succ k =>
        have hstart := startOf_nonneg hspans k
        simp
        omega
    · rw [if_neg hin]
      cases k with
      | zero => simp [hin]
      | succ k =>
        rw [Option.map_eq_some_iff]
        simp only [Nat.add_right_cancel_iff, exists_eq_right, startOf_cons_succ, List.length_cons,
          Nat.add_lt_add_iff_right, List.getElem_cons_succ]
        rw [ih hspans (by omega)]
        constructor
        · rintro ⟨hk, hfrom, hto⟩
          exact ⟨hk, by omega, by omega⟩
        · rintro ⟨hk, hfrom, hto⟩
          exact ⟨hk, by omega, by omega⟩

theorem entryAt_isSome (hlow : 0 ≤ offset) (hhigh : offset < spans.sum) :
    ∃ k, entryAt spans offset = some k := by
  induction spans generalizing offset with
  | nil =>
    rw [List.sum_nil] at hhigh
    omega
  | cons span spans ih =>
    rw [List.sum_cons] at hhigh
    rw [entryAt]
    by_cases hin : offset < span
    · exact ⟨0, if_pos hin⟩
    · obtain ⟨k, hk⟩ := ih (by omega : 0 ≤ offset - span) (by omega)
      exact ⟨k + 1, by rw [if_neg hin, hk, Option.map_some]⟩

def entryOn (spans : List ℤ) (time : ℤ) : Option ℕ := entryAt spans (time % spans.sum)

theorem entryOn_eq_some_iff (h : ∀ span ∈ spans, 0 < span) (hlow : 0 ≤ offset)
    (hhigh : offset < spans.sum) (cycle : ℤ) :
    entryOn spans (cycle * spans.sum + offset) = some k ↔
      ∃ hk : k < spans.length, startOf spans k ≤ offset ∧ offset < startOf spans k + spans[k] := by
  rw [entryOn, Int.mul_add_emod_self_right, Int.emod_eq_of_lt hlow hhigh]
  exact entryAt_eq_some_iff h hlow

end FractalStudio.Rota
