import Mathlib.Logic.Basic

/-!
# Sequences of checks

A check throws or passes. What a sequence of checks lets through is what each of them lets through.
-/
namespace FractalStudio.Guards

universe u v
variable {ε : Type u} {α β : Type v}

/-- The computation throws nothing. -/
def Passes (x : Except ε α) : Prop := ∃ a, x = .ok a

@[simp] theorem passes_ok (a : α) : Passes (.ok a : Except ε α) := ⟨a, rfl⟩

@[simp] theorem passes_pure (a : α) : Passes (pure a : Except ε α) := ⟨a, rfl⟩

@[simp] theorem not_passes_error (e : ε) : ¬ Passes (.error e : Except ε α) := by
  intro ⟨_, h⟩
  cases h

@[simp] theorem not_passes_throw (e : ε) : ¬ Passes (throw e : Except ε α) := not_passes_error e

/-- A guard that throws where its condition holds. -/
def rejectIf (p : Prop) [Decidable p] (e : ε) : Except ε PUnit.{v + 1} :=
  if p then .error e else .ok ⟨⟩

@[simp] theorem passes_rejectIf {p : Prop} [Decidable p] {e : ε} :
    Passes (rejectIf p e : Except ε PUnit.{v + 1}) ↔ ¬ p := by
  by_cases hp : p
  · rw [rejectIf, if_pos hp]
    exact iff_of_false (not_passes_error e) fun h => h hp
  · rw [rejectIf, if_neg hp]
    exact iff_of_true (passes_ok _) hp

theorem rejectIf_of_not {p : Prop} [Decidable p] {e : ε} (h : ¬ p) :
    (rejectIf p e : Except ε PUnit.{v + 1}) = .ok ⟨⟩ := if_neg h

theorem bind_eq_ok {x : Except ε α} {f : α → Except ε β} {b : β} :
    x >>= f = .ok b ↔ ∃ a, x = .ok a ∧ f a = .ok b := by
  cases x with
  | error e =>
    constructor
    · intro h
      cases h
    · intro ⟨a, ha, _⟩
      cases ha
  | ok a =>
    constructor
    · intro h
      exact ⟨a, rfl, h⟩
    · intro ⟨a', ha, h⟩
      cases ha
      exact h

theorem passes_bind {x : Except ε α} {f : α → Except ε β} :
    Passes (x >>= f) ↔ ∃ a, x = .ok a ∧ Passes (f a) := by
  simp only [Passes, bind_eq_ok]
  exact exists_comm.trans (exists_congr fun a => exists_and_left)

theorem bind_of_ok {x : Except ε α} {f : α → Except ε β} {a : α} (h : x = .ok a) :
    x >>= f = f a := by
  rw [h]
  rfl

theorem bind_rejectIf {p : Prop} [Decidable p] {e : ε} {f : PUnit.{v + 1} → Except ε β}
    (h : ¬ p) : rejectIf p e >>= f = f ⟨⟩ := bind_of_ok (rejectIf_of_not h)

theorem passes_seq {x : Except ε PUnit} {f : PUnit → Except ε β} :
    Passes (x >>= f) ↔ Passes x ∧ Passes (f ⟨⟩) := by
  rw [passes_bind]
  constructor
  · intro ⟨a, ha, h⟩
    exact ⟨⟨a, ha⟩, h⟩
  · intro ⟨⟨a, ha⟩, h⟩
    exact ⟨a, ha, h⟩

theorem passes_forM {xs : List α} {f : α → Except ε PUnit} :
    Passes (xs.forM f) ↔ ∀ x ∈ xs, Passes (f x) := by
  induction xs with
  | nil => exact iff_of_true (passes_pure _) (fun x hx => nomatch hx)
  | cons x xs ih =>
    have hstep : Passes (f x >>= fun _ => xs.forM f) ↔ Passes (f x) ∧ ∀ x ∈ xs, Passes (f x) := by
      rw [passes_seq, ih]
    rw [List.forall_mem_cons]
    exact hstep

end FractalStudio.Guards
