import Mathlib.Order.Monotone.Basic

/-!
# Sorting a sequence into consecutive bins

The elements `0 .. count - 1` go into bins in their order: a bin takes elements while a predicate
holds of them, and one in any case; the last bin takes the rest. `cut i` is the first element that
is not in the bins before `i`.
-/
namespace FractalStudio.Bins

section Loop
variable {p : ℕ → Prop} [DecidablePred p] {count i : ℕ}

def skipWhile (p : ℕ → Prop) [DecidablePred p] (count i : ℕ) : ℕ :=
  if i < count ∧ p i then skipWhile p count (i + 1) else i
termination_by count - i

theorem le_skipWhile : i ≤ skipWhile p count i := by
  induction i using skipWhile.induct p count with
  | case1 i h ih =>
    rw [skipWhile, if_pos h]
    omega
  | case2 i h =>
    rw [skipWhile, if_neg h]

theorem skipWhile_le (hi : i ≤ count) : skipWhile p count i ≤ count := by
  induction i using skipWhile.induct p count with
  | case1 i h ih =>
    rw [skipWhile, if_pos h]
    exact ih h.1
  | case2 i h =>
    rw [skipWhile, if_neg h]
    exact hi

theorem of_lt_skipWhile {j : ℕ} (hij : i ≤ j) (hj : j < skipWhile p count i) : p j := by
  induction i using skipWhile.induct p count with
  | case1 i h ih =>
    rw [skipWhile, if_pos h] at hj
    rcases Nat.eq_or_lt_of_le hij with rfl | hlt
    · exact h.2
    · exact ih hlt hj
  | case2 i h =>
    rw [skipWhile, if_neg h] at hj
    omega

theorem not_skipWhile (h : skipWhile p count i < count) : ¬ p (skipWhile p count i) := by
  induction i using skipWhile.induct p count with
  | case1 i hi ih =>
    rw [skipWhile, if_pos hi] at h ⊢
    exact ih h
  | case2 i hi =>
    rw [skipWhile, if_neg hi] at h ⊢
    exact fun hp => hi ⟨h, hp⟩

/-- The end of a bin that takes elements from `i` on, and one at least. -/
def take (p : ℕ → Prop) [DecidablePred p] (count i : ℕ) : ℕ :=
  let next := skipWhile p count i
  if next ≤ i ∧ next < count then next + 1 else next

theorem take_of (hi : i < count) (hp : p i) :
    take p count i = skipWhile p count i ∧ i < take p count i := by
  have hlt : i < skipWhile p count i := by
    rw [skipWhile, if_pos ⟨hi, hp⟩]
    exact le_skipWhile
  have htake : take p count i = skipWhile p count i := if_neg fun h => by omega
  exact ⟨htake, htake ▸ hlt⟩

theorem take_of_not (hi : i < count) (hp : ¬ p i) : take p count i = i + 1 := by
  have hskip : skipWhile p count i = i := by
    rw [skipWhile, if_neg fun h => hp h.2]
  unfold take
  rw [hskip, if_pos ⟨Nat.le_refl i, hi⟩]

theorem take_le (hi : i ≤ count) : take p count i ≤ count := by
  unfold take
  have hskip := skipWhile_le (p := p) hi
  dsimp only
  split <;> omega

theorem le_take : i ≤ take p count i := by
  unfold take
  have hskip : i ≤ skipWhile p count i := le_skipWhile
  dsimp only
  split <;> omega

end Loop

section Cuts
variable (below : ℕ → ℕ → Prop) [∀ i, DecidablePred (below i)] (bins count : ℕ)

def cut : ℕ → ℕ
  | 0 => 0
  | i + 1 => if i + 1 = bins then count else take (below i) count (cut i)

variable {below bins count} {i : ℕ}

theorem cut_le (i : ℕ) : cut below bins count i ≤ count := by
  induction i with
  | zero => exact Nat.zero_le count
  | succ i ih =>
    rw [cut]
    split
    · exact Nat.le_refl count
    · exact take_le ih

theorem cut_le_succ (i : ℕ) : cut below bins count i ≤ cut below bins count (i + 1) := by
  rw [cut]
  split
  · exact cut_le i
  · exact le_take

theorem cut_bins (h : 0 < bins) : cut below bins count bins = count := by
  obtain ⟨i, rfl⟩ := Nat.exists_eq_succ_of_ne_zero (Nat.ne_of_gt h)
  exact if_pos rfl

theorem cut_of_below (hlast : i + 1 ≠ bins) (hi : cut below bins count i < count)
    (hp : below i (cut below bins count i)) :
    cut below bins count i < cut below bins count (i + 1) ∧
      (∀ f, cut below bins count i ≤ f → f < cut below bins count (i + 1) → below i f) ∧
      (cut below bins count (i + 1) < count → ¬ below i (cut below bins count (i + 1))) := by
  obtain ⟨htake, hlt⟩ := take_of hi hp
  rw [cut, if_neg hlast]
  refine ⟨hlt, fun f hf hend => ?_, fun hend => ?_⟩
  · exact of_lt_skipWhile hf (htake ▸ hend)
  · rw [htake] at hend ⊢
    exact not_skipWhile hend

theorem cut_of_not_below (hlast : i + 1 ≠ bins) (hi : cut below bins count i < count)
    (hp : ¬ below i (cut below bins count i)) :
    cut below bins count (i + 1) = cut below bins count i + 1 := by
  rw [cut, if_neg hlast]
  exact take_of_not hi hp

theorem cut_lt_succ (hi : cut below bins count i < count) :
    cut below bins count i < cut below bins count (i + 1) := by
  by_cases hlast : i + 1 = bins
  · rw [cut, if_pos hlast]
    exact hi
  · by_cases hp : below i (cut below bins count i)
    · exact (cut_of_below hlast hi hp).1
    · rw [cut_of_not_below hlast hi hp]
      exact Nat.lt_succ_self _

theorem le_cut {k : ℕ} (h : ∀ j, j < k → cut below bins count j < count) :
    k ≤ cut below bins count k := by
  induction k with
  | zero => exact Nat.zero_le _
  | succ k ih =>
    have hk := ih fun j hj => h j (Nat.lt_succ_of_lt hj)
    have hlt := cut_lt_succ (h k (Nat.lt_succ_self k))
    omega

end Cuts

theorem flatMap_cuts {c : ℕ → ℕ} (hc : ∀ i, c i ≤ c (i + 1)) (k : ℕ) :
    ((List.range k).filter fun i => c i < c (i + 1)).flatMap
      (fun i => List.range' (c i) (c (i + 1) - c i)) = List.range' (c 0) (c k - c 0) := by
  induction k with
  | zero => simp
  | succ k ih =>
    have hk : c 0 ≤ c k := monotone_nat_of_le_succ hc (Nat.zero_le k)
    have hlast := hc k
    have hjoin : List.range' (c 0) (c k - c 0) ++ List.range' (c k) (c (k + 1) - c k) =
        List.range' (c 0) (c (k + 1) - c 0) := by
      have happend := List.range'_append_1 (s := c 0) (m := c k - c 0) (n := c (k + 1) - c k)
      rwa [show c 0 + (c k - c 0) = c k by omega,
        show c k - c 0 + (c (k + 1) - c k) = c (k + 1) - c 0 by omega] at happend
    rw [List.range_succ, List.filter_append, List.flatMap_append, ih, ← hjoin]
    congr 1
    by_cases hempty : c k < c (k + 1)
    · simp [hempty]
    · have hzero : c (k + 1) - c k = 0 := by omega
      simp [hempty, hzero]

end FractalStudio.Bins
