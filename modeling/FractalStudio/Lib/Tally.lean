import Mathlib.Algebra.BigOperators.Group.Finset.Basic
import Mathlib.Algebra.Order.Group.Multiset
import Mathlib.Data.Multiset.Count
import Mathlib.Data.Multiset.Fold
import Mathlib.Order.WithBot

/-!
# Tallies

How often each key occurs in a collection of entries, how many entries there are, and the first and
the last place at which one was found. Tallies of parts merge into the tally of the whole, in any
order.
-/
namespace FractalStudio

@[ext] structure Tally (R : Type*) where
  hist : ℕ → ℕ
  total : ℕ
  first : WithTop R
  last : WithBot R

namespace Tally

/-- No entries. -/
def empty {R : Type*} : Tally R := ⟨fun _ => 0, 0, ⊤, ⊥⟩

variable {R : Type*} [LinearOrder R]

/-- The entries of two tallies. -/
def merge (s t : Tally R) : Tally R :=
  ⟨fun k => s.hist k + t.hist k, s.total + t.total, min s.first t.first, max s.last t.last⟩

def least (places : Multiset R) : WithTop R :=
  (places.map fun p : R => (p : WithTop R)).fold min ⊤

def greatest (places : Multiset R) : WithBot R :=
  (places.map fun p : R => (p : WithBot R)).fold max ⊥

/-- The tally of entries with a key and a place. -/
def of (entries : Multiset (ℕ × R)) : Tally R where
  hist k := (entries.map Prod.fst).count k
  total := entries.card
  first := least (entries.map Prod.snd)
  last := greatest (entries.map Prod.snd)

/-- One more entry with a key, its place left open. -/
def addKey (k : ℕ) (t : Tally R) : Tally R :=
  { t with hist := Function.update t.hist k (t.hist k + 1), total := t.total + 1 }

/-- A place with entries. -/
def includePlace (p : R) (t : Tally R) : Tally R :=
  { t with first := min t.first p, last := max t.last p }

theorem of_zero : of (0 : Multiset (ℕ × R)) = empty := by
  ext1 <;> rfl

theorem least_add (s t : Multiset R) : least (s + t) = min (least s) (least t) := by
  have hfold := Multiset.fold_add min (⊤ : WithTop R) ⊤ (s.map fun p : R => (p : WithTop R))
    (t.map fun p : R => (p : WithTop R))
  rw [min_self] at hfold
  rw [least, Multiset.map_add]
  exact hfold

theorem greatest_add (s t : Multiset R) : greatest (s + t) = max (greatest s) (greatest t) := by
  have hfold := Multiset.fold_add max (⊥ : WithBot R) ⊥ (s.map fun p : R => (p : WithBot R))
    (t.map fun p : R => (p : WithBot R))
  rw [max_self] at hfold
  rw [greatest, Multiset.map_add]
  exact hfold

theorem of_add (s t : Multiset (ℕ × R)) : of (s + t) = (of s).merge (of t) := by
  ext1
  · funext k
    simp only [of, merge, Multiset.map_add, Multiset.count_add]
  · simp only [of, merge, Multiset.card_add]
  · simp only [of, merge, Multiset.map_add, least_add]
  · simp only [of, merge, Multiset.map_add, greatest_add]

theorem merge_empty (s : Tally R) : s.merge empty = s := by
  ext1
  · funext k
    exact Nat.add_zero _
  · exact Nat.add_zero _
  · exact min_eq_left le_top
  · exact max_eq_left bot_le

theorem empty_merge (s : Tally R) : empty.merge s = s := by
  ext1
  · funext k
    exact Nat.zero_add _
  · exact Nat.zero_add _
  · exact min_eq_right le_top
  · exact max_eq_right bot_le

theorem merge_assoc (s t u : Tally R) : (s.merge t).merge u = s.merge (t.merge u) := by
  ext1
  · funext k
    exact Nat.add_assoc _ _ _
  · exact Nat.add_assoc _ _ _
  · exact min_assoc _ _ _
  · exact max_assoc _ _ _

theorem merge_comm (s t : Tally R) : s.merge t = t.merge s := by
  ext1
  · funext k
    exact Nat.add_comm _ _
  · exact Nat.add_comm _ _
  · exact min_comm _ _
  · exact max_comm _ _

/-- Tallies add up by merging. -/
instance : Add (Tally R) := ⟨merge⟩

instance : Zero (Tally R) := ⟨empty⟩

instance : AddCommMonoid (Tally R) where
  add_assoc := merge_assoc
  zero_add := empty_merge
  add_zero := merge_empty
  add_comm := merge_comm
  nsmul := nsmulRec

theorem add_eq_merge (s t : Tally R) : s + t = s.merge t := rfl

def ofHom : Multiset (ℕ × R) →+ Tally R where
  toFun := of
  map_zero' := of_zero
  map_add' := of_add

theorem sum_of {ι : Type*} (parts : Finset ι) (entries : ι → Multiset (ℕ × R)) :
    ∑ i ∈ parts, of (entries i) = of (∑ i ∈ parts, entries i) := (map_sum ofHom entries parts).symm

theorem least_eq_top_iff (places : Multiset R) : least places = ⊤ ↔ places = 0 := by
  induction places using Multiset.induction with
  | empty => exact iff_of_true rfl rfl
  | cons p places ih =>
    refine iff_of_false ?_ (Multiset.cons_ne_zero)
    rw [least, Multiset.map_cons, Multiset.fold_cons_left]
    exact ne_top_of_le_ne_top (WithTop.coe_ne_top) (min_le_left _ _)

theorem greatest_eq_bot_iff (places : Multiset R) : greatest places = ⊥ ↔ places = 0 := by
  induction places using Multiset.induction with
  | empty => exact iff_of_true rfl rfl
  | cons p places ih =>
    refine iff_of_false ?_ (Multiset.cons_ne_zero)
    rw [greatest, Multiset.map_cons, Multiset.fold_cons_left]
    exact ne_bot_of_le_ne_bot (WithBot.coe_ne_bot) (le_max_left _ _)

theorem least_le {places : Multiset R} {p : R} (h : p ∈ places) : least places ≤ p := by
  induction places using Multiset.induction with
  | empty => exact absurd h (Multiset.notMem_zero p)
  | cons q places ih =>
    rw [least, Multiset.map_cons, Multiset.fold_cons_left]
    obtain rfl | hmem := Multiset.mem_cons.mp h
    · exact min_le_left _ _
    · exact (min_le_right _ _).trans (ih hmem)

theorem le_least {places : Multiset R} {p : R} (h : ∀ q ∈ places, p ≤ q) : p ≤ least places := by
  induction places using Multiset.induction with
  | empty => exact le_top
  | cons q places ih =>
    rw [least, Multiset.map_cons, Multiset.fold_cons_left]
    apply le_min
    · exact WithTop.coe_le_coe.mpr (h q (Multiset.mem_cons_self q places))
    · exact ih fun q' hq' => h q' (Multiset.mem_cons_of_mem hq')

theorem le_greatest {places : Multiset R} {p : R} (h : p ∈ places) : p ≤ greatest places := by
  induction places using Multiset.induction with
  | empty => exact absurd h (Multiset.notMem_zero p)
  | cons q places ih =>
    rw [greatest, Multiset.map_cons, Multiset.fold_cons_left]
    obtain rfl | hmem := Multiset.mem_cons.mp h
    · exact le_max_left _ _
    · exact (ih hmem).trans (le_max_right _ _)

theorem greatest_le {places : Multiset R} {p : R} (h : ∀ q ∈ places, q ≤ p) :
    greatest places ≤ p := by
  induction places using Multiset.induction with
  | empty => exact bot_le
  | cons q places ih =>
    rw [greatest, Multiset.map_cons, Multiset.fold_cons_left]
    apply max_le
    · exact WithBot.coe_le_coe.mpr (h q (Multiset.mem_cons_self q places))
    · exact ih fun q' hq' => h q' (Multiset.mem_cons_of_mem hq')

theorem least_replicate (n : ℕ) (p : R) : least (Multiset.replicate (n + 1) p) = p := by
  induction n with
  | zero => exact min_eq_left le_top
  | succ n ih =>
    rw [least, Multiset.replicate_succ, Multiset.map_cons, Multiset.fold_cons_left, ← least, ih]
    exact min_self _

theorem greatest_replicate (n : ℕ) (p : R) : greatest (Multiset.replicate (n + 1) p) = p := by
  induction n with
  | zero => exact max_eq_left bot_le
  | succ n ih =>
    rw [greatest, Multiset.replicate_succ, Multiset.map_cons, Multiset.fold_cons_left, ← greatest, ih]
    exact max_self _

omit [LinearOrder R] in
theorem foldl_addKey (keys : List ℕ) (t : Tally R) :
    keys.foldl (fun t k => t.addKey k) t =
      { t with hist := fun k => t.hist k + keys.count k, total := t.total + keys.length } := by
  induction keys generalizing t with
  | nil => rfl
  | cons key keys ih =>
    rw [List.foldl_cons, ih]
    ext1
    · funext k
      by_cases hk : k = key
      · subst hk
        simp only [addKey, Function.update_self, List.count_cons_self]
        omega
      · simp only [addKey, Function.update_of_ne hk, List.count_cons_of_ne (Ne.symm hk)]
    · simp only [addKey, List.length_cons]
      omega
    · rfl
    · rfl

theorem includePlace_foldl_addKey {keys : List ℕ} (h : keys ≠ []) (p : R) (t : Tally R) :
    (keys.foldl (fun t k => t.addKey k) t).includePlace p =
      t.merge (of (keys.map fun k => (k, p) : List (ℕ × R))) := by
  obtain ⟨n, hn⟩ : ∃ n, keys.length = n + 1 :=
    Nat.exists_eq_succ_of_ne_zero fun h0 => h (List.length_eq_zero_iff.mp h0)
  have hplaces : ((keys.map fun k => (k, p) : List (ℕ × R)) : Multiset (ℕ × R)).map Prod.snd =
      Multiset.replicate (n + 1) p := by
    rw [Multiset.map_coe, List.map_map, ← hn, ← Multiset.coe_replicate]
    exact congrArg _ List.map_const'
  rw [foldl_addKey]
  ext1
  · funext k
    simp only [includePlace, merge, of, Multiset.map_coe, List.map_map, Multiset.coe_count]
    rw [show (Prod.fst ∘ fun k => (k, p)) = id from rfl, List.map_id]
  · simp only [includePlace, merge, of, Multiset.coe_card, List.length_map]
  · simp only [includePlace, merge, of]
    rw [hplaces, least_replicate]
  · simp only [includePlace, merge, of]
    rw [hplaces, greatest_replicate]

end Tally

end FractalStudio
