import Mathlib.Logic.Relation

/-!
# Runs of a partial step function

A system is a predicate on initial states and a partial step function. The guard
of a run constrains each action in the state it is taken from, so a claim about
"every run whose steps all meet a condition" is a claim about `Reach` with that
condition as guard. The unguarded system is the guard `Free`.
-/
namespace FractalStudio.Transition

universe u v
variable {σ : Type u} {α : Type v}

/-- The guard that every action meets. -/
def Free : σ → α → Prop := fun _ _ => True

/-- The states of the runs whose every step met `ok` in the state it left. -/
inductive Reach (init : σ → Prop) (step : σ → α → Option σ) (ok : σ → α → Prop) : σ → Prop
  | start {s : σ} : init s → Reach init step ok s
  | next {s s' : σ} {a : α} :
      Reach init step ok s → ok s a → step s a = some s' → Reach init step ok s'

/-- One guarded step, with the action forgotten. -/
def Moves (step : σ → α → Option σ) (ok : σ → α → Prop) (s s' : σ) : Prop :=
  ∃ a, ok s a ∧ step s a = some s'

/-- `s'` is `s` or lies later on a guarded run from `s`. -/
abbrev Later (step : σ → α → Option σ) (ok : σ → α → Prop) : σ → σ → Prop :=
  Relation.ReflTransGen (Moves step ok)

variable {init : σ → Prop} {step : σ → α → Option σ} {ok ok' : σ → α → Prop}

theorem eq_of_unless {β : Type u} {x y : β} [Decidable (x ≠ y)] {r : Option σ} {s : σ}
    (h : (if x ≠ y then none else r) = some s) : x = y ∧ r = some s := by
  obtain ⟨hxy, hr⟩ := Option.ite_none_left_eq_some.mp h
  exact ⟨Classical.not_not.mp hxy, hr⟩

/-- What holds at first and is kept by every step holds wherever a run gets. -/
theorem Reach.invariant {I : σ → Prop} (h0 : ∀ s, init s → I s)
    (hstep : ∀ s a s', I s → ok s a → step s a = some s' → I s')
    {s : σ} (hr : Reach init step ok s) : I s := by
  induction hr with
  | start hi => exact h0 _ hi
  | next _ hok hs ih => exact hstep _ _ _ ih hok hs

theorem Reach.mono (h : ∀ s a, ok s a → ok' s a) {s : σ} (hr : Reach init step ok s) :
    Reach init step ok' s := by
  induction hr with
  | start hi => exact .start hi
  | next _ hok hs ih => exact .next ih (h _ _ hok) hs

theorem Reach.free {s : σ} (hr : Reach init step ok s) : Reach init step Free s :=
  hr.mono fun _ _ _ => trivial

theorem Reach.later {s s' : σ} (hr : Reach init step ok s) (hl : Later step ok s s') :
    Reach init step ok s' := by
  induction hl with
  | refl => exact hr
  | tail _ hm ih =>
    obtain ⟨a, hok, hs⟩ := hm
    exact .next ih hok hs

theorem Later.free {s s' : σ} (hl : Later step ok s s') : Later step Free s s' := by
  have hmoves : Moves step ok ≤ Moves step Free := fun _ _ ⟨a, _, hs⟩ => ⟨a, trivial, hs⟩
  exact Relation.ReflTransGen.mono hmoves s s' hl

/-- What every step keeps is kept by every continuation. -/
theorem Later.invariant {I : σ → Prop}
    (hstep : ∀ s a s', I s → ok s a → step s a = some s' → I s')
    {s s' : σ} (hl : Later step ok s s') (h0 : I s) : I s' := by
  induction hl with
  | refl => exact h0
  | tail _ hm ih =>
    obtain ⟨a, hok, hs⟩ := hm
    exact hstep _ a _ ih hok hs

theorem Later.keeps {P : σ → Prop}
    (hstep : ∀ s a s', Reach init step ok s → P s → ok s a → step s a = some s' → P s')
    {s s' : σ} (hr : Reach init step ok s) (hl : Later step ok s s') (hp : P s) : P s' := by
  have hboth : Reach init step ok s' ∧ P s' := by
    refine hl.invariant (I := fun t => Reach init step ok t ∧ P t) ?_ ⟨hr, hp⟩
    rintro t a t' ⟨ht, hpt⟩ hok hs
    exact ⟨ht.next hok hs, hstep t a t' ht hpt hok hs⟩
  exact hboth.2

/-- Take the listed actions in order; `none` when one of them is not enabled. -/
def exec (step : σ → α → Option σ) : σ → List α → Option σ
  | s, [] => some s
  | s, a :: as => (step s a).bind fun s' => exec step s' as

theorem later_of_exec {s s' : σ} {as : List α} (h : exec step s as = some s') :
    Later step Free s s' := by
  induction as generalizing s with
  | nil =>
    obtain rfl := Option.some.inj h
    exact .refl
  | cons a as ih =>
    obtain ⟨t, ht, hrest⟩ := Option.bind_eq_some_iff.mp h
    exact Relation.ReflTransGen.head ⟨a, trivial, ht⟩ (ih hrest)

theorem reach_of_exec {s s' : σ} {as : List α} (hi : init s) (h : exec step s as = some s') :
    Reach init step Free s' :=
  (Reach.start hi).later (later_of_exec h)

/-- The step function restricted to the steps that meet a decidable guard. -/
def guarded (step : σ → α → Option σ) (ok : σ → α → Bool) (s : σ) (a : α) : Option σ :=
  if ok s a then step s a else none

theorem later_of_guarded_exec {ok : σ → α → Bool} {s s' : σ} {as : List α}
    (h : exec (guarded step ok) s as = some s') :
    Later step (fun s a => ok s a = true) s s' := by
  have hmoves : Moves (guarded step ok) Free ≤ Moves step fun s a => ok s a = true := by
    rintro t t' ⟨a, -, ht⟩
    unfold guarded at ht
    split at ht
    · next hok => exact ⟨a, hok, ht⟩
    · cases ht
  exact Relation.ReflTransGen.mono hmoves s s' (later_of_exec h)

theorem reach_of_guarded_exec {ok : σ → α → Bool} {s s' : σ} {as : List α} (hi : init s)
    (h : exec (guarded step ok) s as = some s') : Reach init step (fun s a => ok s a = true) s' :=
  (Reach.start hi).later (later_of_guarded_exec h)

end FractalStudio.Transition
