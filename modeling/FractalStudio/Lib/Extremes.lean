import Mathlib

/-!
# Least and greatest values among indices

What one more index does to the least and to the greatest value of a sequence over a set of
indices, and to the sum of the two.
-/
namespace FractalStudio.Extremes

universe u v
variable {K : Type u} [LinearOrder K] {P Q : Nat → Prop} {s : Nat → K} {i i' j j' e : Nat}

/-- An index of `P` with the least value. -/
def Least (P : Nat → Prop) (s : Nat → K) (i : Nat) : Prop := P i ∧ ∀ k, P k → s i ≤ s k

/-- An index of `P` with the greatest value. -/
def Greatest (P : Nat → Prop) (s : Nat → K) (j : Nat) : Prop := P j ∧ ∀ k, P k → s k ≤ s j

theorem Least.value_unique (h : Least P s i) (h' : Least P s i') : s i = s i' :=
  le_antisymm (h.2 i' h'.1) (h'.2 i h.1)

theorem Greatest.value_unique (h : Greatest P s j) (h' : Greatest P s j') : s j = s j' :=
  le_antisymm (h'.2 j h.1) (h.2 j' h'.1)

theorem Least.congr (h : Least P s i) (hPQ : ∀ k, P k ↔ Q k) : Least Q s i :=
  ⟨(hPQ i).mp h.1, fun k hk => h.2 k ((hPQ k).mpr hk)⟩

theorem Greatest.congr (h : Greatest P s j) (hPQ : ∀ k, P k ↔ Q k) : Greatest Q s j :=
  ⟨(hPQ j).mp h.1, fun k hk => h.2 k ((hPQ k).mpr hk)⟩

theorem Least.map {L : Type v} [LinearOrder L] {f : K → L} (hf : Monotone f) (h : Least P s i) :
    Least P (fun k => f (s k)) i :=
  ⟨h.1, fun k hk => hf (h.2 k hk)⟩

theorem Greatest.map {L : Type v} [LinearOrder L] {f : K → L} (hf : Monotone f)
    (h : Greatest P s j) : Greatest P (fun k => f (s k)) j :=
  ⟨h.1, fun k hk => hf (h.2 k hk)⟩

theorem least_insert (h : Least P s i) (h' : Least Q s i') (hQ : ∀ k, Q k ↔ P k ∨ k = e) :
    s i' = s i ↔ ∃ k, P k ∧ s k ≤ s e := by
  constructor
  · intro heq
    refine ⟨i, h.1, ?_⟩
    rw [← heq]
    exact h'.2 e ((hQ e).mpr (.inr rfl))
  · intro ⟨k, hk, hle⟩
    have hie : s i ≤ s e := (h.2 k hk).trans hle
    apply le_antisymm
    · exact h'.2 i ((hQ i).mpr (.inl h.1))
    · obtain hi' | rfl := (hQ i').mp h'.1
      · exact h.2 i' hi'
      · exact hie

theorem greatest_insert (h : Greatest P s j) (h' : Greatest Q s j')
    (hQ : ∀ k, Q k ↔ P k ∨ k = e) : s j' = s j ↔ ∃ k, P k ∧ s e ≤ s k :=
  @least_insert Kᵒᵈ _ P Q (fun k => OrderDual.toDual (s k)) j j' e h h' hQ

theorem extremes_insert [AddCancelCommMonoid K] (hi : Least P s i) (hj : Greatest P s j)
    (hi' : Least Q s i') (hj' : Greatest Q s j') (hQ : ∀ k, Q k ↔ P k ∨ k = e) :
    s i' + s j' = s i + s j ↔ (∃ k, P k ∧ s k ≤ s e) ∧ ∃ k, P k ∧ s e ≤ s k := by
  have hlow := least_insert hi hi' hQ
  have hhigh := greatest_insert hj hj' hQ
  rw [← hlow, ← hhigh]
  constructor
  · intro hsum
    obtain hle | hle := le_total (s i) (s e)
    · have heq : s i' = s i := hlow.mpr ⟨i, hi.1, hle⟩
      rw [heq] at hsum
      exact ⟨heq, add_left_cancel hsum⟩
    · have heq : s j' = s j := hhigh.mpr ⟨i, hi.1, hle⟩
      rw [heq] at hsum
      exact ⟨add_right_cancel hsum, heq⟩
  · intro ⟨hi, hj⟩
    rw [hi, hj]

end FractalStudio.Extremes
