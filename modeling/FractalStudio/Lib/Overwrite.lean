import Mathlib.Data.Set.Insert
import Mathlib.Logic.Function.Basic

/-!
# Loops that overwrite cells

A loop of point writes changes some cells of an array and leaves the others. Where the value
written to a cell depends on the cell alone, the loop is known by the set of cells it reaches.
-/
namespace FractalStudio.Overwrite

universe u v w
variable {κ : Type u} {β : Type v} {α : Type w}

/-- `f` gives the cells in `S` their value under `g`, and leaves the other cells. -/
structure Overwrites (g : κ → β) (S : Set κ) (f : (κ → β) → κ → β) : Prop where
  inside : ∀ d i, i ∈ S → f d i = g i
  outside : ∀ d i, i ∉ S → f d i = d i

variable {g : κ → β} {S T : Set κ} {f f' : (κ → β) → κ → β}

theorem Overwrites.congr (h : Overwrites g S f) (hS : ∀ i, i ∈ T ↔ i ∈ S) : Overwrites g T f := by
  constructor
  · intro d i hi
    exact h.inside d i ((hS i).mp hi)
  · intro d i hi
    exact h.outside d i fun hs => hi ((hS i).mpr hs)

theorem overwrites_id : Overwrites g ∅ id := by
  constructor
  · intro d i hi
    exact absurd hi (Set.notMem_empty i)
  · intro d i _
    rfl

theorem overwrites_update [DecidableEq κ] (i : κ) {b : β} (hb : b = g i) :
    Overwrites g {i} fun d => Function.update d i b := by
  constructor
  · intro d j hj
    obtain rfl := Set.mem_singleton_iff.mp hj
    rw [Function.update_self, hb]
  · intro d j hj
    exact Function.update_of_ne (fun he => hj (Set.mem_singleton_iff.mpr he)) b d

theorem overwrites_ite {c : Prop} [Decidable c] (h : c → Overwrites g S f) :
    Overwrites g {i | c ∧ i ∈ S} fun d => if c then f d else d := by
  constructor
  · intro d i hi
    simp only [if_pos hi.1]
    exact (h hi.1).inside d i hi.2
  · intro d i hi
    by_cases hc : c
    · simp only [if_pos hc]
      exact (h hc).outside d i fun hs => hi ⟨hc, hs⟩
    · simp only [if_neg hc]

theorem Overwrites.comp (h : Overwrites g S f) (h' : Overwrites g T f') :
    Overwrites g {i | i ∈ S ∨ i ∈ T} fun d => f' (f d) := by
  constructor
  · intro d i hi
    by_cases ht : i ∈ T
    · exact h'.inside _ i ht
    · rw [h'.outside _ i ht]
      exact h.inside d i (hi.resolve_right ht)
  · intro d i hi
    rw [h'.outside _ i fun ht => hi (.inr ht)]
    exact h.outside d i fun hs => hi (.inl hs)

theorem overwrites_foldl {step : (κ → β) → α → κ → β} {S : α → Set κ} (l : List α)
    (h : ∀ a ∈ l, Overwrites g (S a) fun d => step d a) :
    Overwrites g {i | ∃ a ∈ l, i ∈ S a} fun d => l.foldl step d := by
  induction l with
  | nil => exact overwrites_id.congr fun i => by simp
  | cons a l ih =>
    have hhead : Overwrites g (S a) fun d => step d a := h a List.mem_cons_self
    have htail := ih fun b hb => h b (List.mem_cons_of_mem a hb)
    apply (hhead.comp htail).congr
    intro i
    simp only [Set.mem_ofPred_eq, List.mem_cons, exists_eq_or_imp]

end FractalStudio.Overwrite
