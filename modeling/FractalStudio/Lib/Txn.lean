/-!
# Transactions that commit or roll back

A transaction over a store is a computation that either ends with a value or fails;
a failed one leaves no trace, so its store is the one it started from. The lemmas
invert a committed transaction into the commits of its parts.
-/
namespace FractalStudio

abbrev Txn (ε α : Type) := Except ε α

namespace Txn

variable {ε α β : Type}

/-- Fail unless the condition holds. -/
def require (ok : Bool) (failure : ε) : Txn ε Unit := if ok then .ok () else .error failure

/-- The value, if there is one. -/
def orFail (x : Option α) (failure : ε) : Txn ε α :=
  match x with
  | some a => .ok a
  | none => .error failure

@[simp] theorem require_eq_ok {ok : Bool} {failure : ε} {u : Unit} :
    require ok failure = .ok u ↔ ok = true := by
  cases ok <;> simp [require]

@[simp] theorem orFail_eq_ok {x : Option α} {failure : ε} {a : α} :
    orFail x failure = .ok a ↔ x = some a := by
  cases x <;> simp [orFail]

theorem bind_commits {x : Txn ε α} {f : α → Txn ε β} {b : β} :
    (x >>= f) = .ok b ↔ ∃ a, x = .ok a ∧ f a = .ok b := by
  constructor
  · intro h
    match x, h with
    | .ok a, h => exact ⟨a, rfl, h⟩
  · rintro ⟨a, rfl, h⟩
    exact h

@[simp] theorem require_eq_error {ok : Bool} {failure e : ε} :
    require ok failure = .error e ↔ ok = false ∧ failure = e := by
  cases ok <;> simp [require]

@[simp] theorem orFail_eq_error {x : Option α} {failure e : ε} :
    orFail x failure = .error e ↔ x = none ∧ failure = e := by
  cases x <;> simp [orFail]

theorem bind_fails {x : Txn ε α} {f : α → Txn ε β} {e : ε} :
    (x >>= f) = .error e ↔ x = .error e ∨ ∃ a, x = .ok a ∧ f a = .error e := by
  constructor
  · intro h
    match x, h with
    | .ok a, h => exact .inr ⟨a, rfl, h⟩
    | .error _, h => exact .inl (congrArg Except.error (Except.error.inj h))
  · rintro (rfl | ⟨a, rfl, h⟩)
    · rfl
    · exact h

/-- Run a transaction for each element in turn. -/
def each (step : β → α → Txn ε β) : β → List α → Txn ε β
  | b, [] => .ok b
  | b, a :: as => step b a >>= fun b' => each step b' as

@[simp] theorem each_nil (step : β → α → Txn ε β) (b : β) : each step b [] = .ok b := rfl

theorem each_cons_commits {step : β → α → Txn ε β} {b b' : β} {a : α} {as : List α} :
    each step b (a :: as) = .ok b' ↔ ∃ m, step b a = .ok m ∧ each step m as = .ok b' :=
  bind_commits

/-- What every turn keeps, the loop keeps. -/
theorem each_invariant {step : β → α → Txn ε β} {I : β → Prop} {as : List α}
    (hstep : ∀ a ∈ as, ∀ b b', I b → step b a = .ok b' → I b') {b b' : β} (hb : I b)
    (h : each step b as = .ok b') : I b' := by
  induction as generalizing b with
  | nil =>
    obtain rfl := Except.ok.inj h
    exact hb
  | cons a as ih =>
    obtain ⟨m, hm, hrest⟩ := each_cons_commits.mp h
    exact ih (fun a' ha' => hstep a' (List.mem_cons_of_mem _ ha'))
      (hstep a List.mem_cons_self b m hb hm) hrest

theorem each_fails {step : β → α → Txn ε β} {I : β → Prop} {as : List α} {e : ε} {p : Prop}
    (hstep : ∀ a ∈ as, ∀ b b', I b → step b a = .ok b' → I b')
    (hfail : ∀ a ∈ as, ∀ b, I b → step b a = .error e → p) {b : β} (hb : I b)
    (h : each step b as = .error e) : p := by
  induction as generalizing b with
  | nil => cases h
  | cons a as ih =>
    obtain hfirst | ⟨m, hm, hrest⟩ := bind_fails.mp h
    · exact hfail a List.mem_cons_self b hb hfirst
    · exact ih (fun a' ha' => hstep a' (List.mem_cons_of_mem _ ha'))
        (fun a' ha' => hfail a' (List.mem_cons_of_mem _ ha'))
        (hstep a List.mem_cons_self b m hb hm) hrest

end Txn
end FractalStudio
