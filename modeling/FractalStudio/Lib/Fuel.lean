import Mathlib.Data.List.Basic

/-!
# Computations with fuel

A computation that takes fuel settles on a value when every large enough amount of fuel gives that
value.
-/
namespace FractalStudio.Fuel

/-- Why a computation ends without a result. -/
inductive Stop where
  | outOfFuel
  | thrown (what : String)
deriving DecidableEq

variable {α β σ : Type}

/-- With enough fuel the result is one value, and it has the property. -/
def Settles (f : ℕ → Except Stop α) (P : α → Prop) : Prop :=
  ∃ a, P a ∧ ∃ n, ∀ fuel, n ≤ fuel → f fuel = .ok a

theorem Settles.value {P : α → Prop} {a : α} (h : P a) : Settles (fun _ => .ok a) P :=
  ⟨a, h, 0, fun _ _ => rfl⟩

theorem Settles.mono {f : ℕ → Except Stop α} {P Q : α → Prop} (h : Settles f P)
    (hPQ : ∀ a, P a → Q a) : Settles f Q := by
  obtain ⟨a, ha, n, hn⟩ := h
  exact ⟨a, hPQ a ha, n, hn⟩

theorem Settles.andThen {f : ℕ → Except Stop α} {g : ℕ → α → Except Stop β} {P : α → Prop}
    {Q : β → Prop} (hf : Settles f P) (hg : ∀ a, P a → Settles (fun fuel => g fuel a) Q) :
    Settles (fun fuel => f fuel >>= g fuel) Q := by
  obtain ⟨a, ha, n, hn⟩ := hf
  obtain ⟨b, hb, m, hm⟩ := hg a ha
  refine ⟨b, hb, max n m, fun fuel hfuel => ?_⟩
  show f fuel >>= g fuel = .ok b
  rw [hn fuel (Nat.le_trans (Nat.le_max_left n m) hfuel)]
  exact hm fuel (Nat.le_trans (Nat.le_max_right n m) hfuel)

theorem Settles.call {f g : ℕ → Except Stop α} {P : α → Prop} (hf : Settles f P)
    (h : ∀ fuel, g (fuel + 1) = f fuel) : Settles g P := by
  obtain ⟨a, ha, n, hn⟩ := hf
  refine ⟨a, ha, n + 1, fun fuel hfuel => ?_⟩
  obtain _ | fuel := fuel
  · exact absurd hfuel (Nat.not_succ_le_zero n)
  · rw [h]
    exact hn fuel (Nat.le_of_succ_le_succ hfuel)

theorem Settles.foldlM {step : ℕ → σ → α → Except Stop σ} (Inv : List α → σ → Prop)
    (items : List α) {s : σ} (hs : Inv [] s)
    (h : ∀ done x rest s, items = done ++ x :: rest → Inv done s →
      Settles (fun fuel => step fuel s x) (Inv (done ++ [x]))) :
    Settles (fun fuel => items.foldlM (step fuel) s) (Inv items) := by
  have hrun (rest : List α) (done : List α) (s : σ) (hitems : items = done ++ rest)
      (hs : Inv done s) : Settles (fun fuel => rest.foldlM (step fuel) s) (Inv items) := by
    induction rest generalizing done s with
    | nil =>
      rw [List.append_nil] at hitems
      exact Settles.value (hitems ▸ hs)
    | cons x rest ih =>
      apply (h done x rest s hitems hs).andThen
      intro s' hs'
      exact ih (done ++ [x]) s' (by rw [hitems, List.append_assoc]; rfl) hs'
  exact hrun items [] s rfl hs

theorem foldlM_flatMap {step : σ → β → Except Stop σ} (xs : List α) (f : α → List β) (s : σ) :
    (xs.flatMap f).foldlM step s = xs.foldlM (fun s x => (f x).foldlM step s) s := by
  induction xs generalizing s with
  | nil => rfl
  | cons x xs ih =>
    rw [List.flatMap_cons, List.foldlM_append, List.foldlM_cons]
    congr 1
    funext s
    exact ih s

end FractalStudio.Fuel
