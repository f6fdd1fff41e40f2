/-!
# Computations that poll

A computation that asks now and then whether to go on, and gives up at the first answer that says
stop. The answers are a sequence: the answer to a poll depends on how many polls came before it.
-/
namespace FractalStudio

universe u v

/-- From the number of polls so far to the value, or nothing if told to stop, and the number then. -/
abbrev Polling (α : Type u) := Nat → Option α × Nat

namespace Polling
variable {α : Type u} {β : Type v} (stop : Nat → Bool)

def value (a : α) : Polling α := fun n => (some a, n)

/-- What comes after a computation is left out when that was told to stop. -/
def andThen (m : Polling α) (f : α → Polling β) : Polling β := fun n =>
  match (m n).1 with
  | some a => f a (m n).2
  | none => (none, (m n).2)

def poll : Polling Unit := fun n => (if stop n then none else some (), n + 1)

/-- A poll in those turns only in which it is due. -/
def pollIf (due : Bool) : Polling Unit := if due then poll stop else value ()

/-- The computation has the value `a` if no poll of it says stop, and none if one does: then that is
its last one. -/
def Yields (m : Polling α) (a : α) : Prop :=
  ∀ n, n ≤ (m n).2 ∧
    ((m n).1 = some a ∧ (∀ k, n ≤ k → k < (m n).2 → stop k = false) ∨
      (m n).1 = none ∧ ∃ k, n ≤ k ∧ (m n).2 = k + 1 ∧ stop k = true ∧
        ∀ j, n ≤ j → j < k → stop j = false)

namespace Yields
variable {stop : Nat → Bool} {m : Polling α} {f : α → Polling β} {a : α} {b : β}

theorem value (a : α) : Yields stop (Polling.value a) a := by
  intro n
  exact ⟨Nat.le_refl n, .inl ⟨rfl, fun k hk hlt => absurd hk (Nat.not_le_of_lt hlt)⟩⟩

theorem poll : Yields stop (Polling.poll stop) () := by
  intro n
  refine ⟨Nat.le_succ n, ?_⟩
  cases hstop : stop n with
  | true =>
    refine .inr ⟨?_, n, Nat.le_refl n, rfl, hstop, fun j hj hlt => absurd hj (Nat.not_le_of_lt hlt)⟩
    rw [Polling.poll, hstop]
    rfl
  | false =>
    refine .inl ⟨?_, fun k hk hlt => ?_⟩
    · rw [Polling.poll, hstop]
      rfl
    · obtain rfl : k = n := Nat.le_antisymm (Nat.le_of_lt_succ hlt) hk
      exact hstop

theorem pollIf (due : Bool) : Yields stop (Polling.pollIf stop due) () := by
  cases due with
  | true => exact poll
  | false => exact value ()

theorem andThen (hm : Yields stop m a) (hf : Yields stop (f a) b) :
    Yields stop (m.andThen f) b := by
  intro n
  obtain ⟨hle, hm⟩ := hm n
  obtain ⟨hsome, hgo⟩ | ⟨hnone, k, hk, hcount, hstop, hgo⟩ := hm
  · obtain ⟨hle', hf⟩ := hf (m n).2
    rw [Polling.andThen, hsome]
    refine ⟨Nat.le_trans hle hle', ?_⟩
    obtain ⟨hvalue, hgo'⟩ | ⟨hnone, k, hk, hcount, hstop, hgo'⟩ := hf
    · refine .inl ⟨hvalue, fun j hj hlt => ?_⟩
      by_cases hbefore : j < (m n).2
      · exact hgo j hj hbefore
      · exact hgo' j (Nat.le_of_not_lt hbefore) hlt
    · refine .inr ⟨hnone, k, Nat.le_trans hle hk, hcount, hstop, fun j hj hlt => ?_⟩
      by_cases hbefore : j < (m n).2
      · exact hgo j hj hbefore
      · exact hgo' j (Nat.le_of_not_lt hbefore) hlt
  · rw [Polling.andThen, hnone]
    exact ⟨hle, .inr ⟨rfl, k, hk, hcount, hstop, hgo⟩⟩

theorem ite {c : Prop} [Decidable c] {m m' : Polling α} {a a' : α} (h : c → Yields stop m a)
    (h' : ¬ c → Yields stop m' a') :
    Yields stop (if c then m else m') (if c then a else a') := by
  by_cases hc : c
  · rw [if_pos hc, if_pos hc]
    exact h hc
  · rw [if_neg hc, if_neg hc]
    exact h' hc

theorem run_of_never (h : Yields stop m a) (hnever : ∀ k, stop k = false) (n : Nat) :
    (m n).1 = some a := by
  obtain ⟨-, ⟨hvalue, -⟩ | ⟨-, k, -, -, hstop, -⟩⟩ := h n
  · exact hvalue
  · rw [hnever k] at hstop
    cases hstop

theorem run_eq_none_iff (h : Yields stop m a) (n : Nat) :
    (m n).1 = none ↔ ∃ k, n ≤ k ∧ k < (m n).2 ∧ stop k = true := by
  obtain ⟨-, ⟨hvalue, hgo⟩ | ⟨hnone, k, hk, hcount, hstop, -⟩⟩ := h n
  · constructor
    · intro hnone
      rw [hvalue] at hnone
      cases hnone
    · rintro ⟨k, hk, hlt, hstop⟩
      rw [hgo k hk hlt] at hstop
      cases hstop
  · exact ⟨fun _ => ⟨k, hk, by omega, hstop⟩, fun _ => hnone⟩

theorem run_eq_some (h : Yields stop m a) {n : Nat} {b : α} (hb : (m n).1 = some b) : b = a := by
  obtain ⟨-, ⟨hvalue, -⟩ | ⟨hnone, -⟩⟩ := h n
  · exact Option.some.inj (hb.symm.trans hvalue)
  · rw [hnone] at hb
    cases hb

end Yields

/-- The value has the property. -/
def Ensures (m : Polling α) (P : α → Prop) : Prop := ∃ a, P a ∧ Yields stop m a

namespace Ensures
variable {stop : Nat → Bool} {m : Polling α} {f : α → Polling β} {P : α → Prop} {Q : β → Prop}

theorem value {a : α} (h : P a) : Ensures stop (Polling.value a) P := ⟨a, h, Yields.value a⟩

theorem andThen (hm : Ensures stop m P) (hf : ∀ a, P a → Ensures stop (f a) Q) :
    Ensures stop (m.andThen f) Q := by
  obtain ⟨a, ha, hm⟩ := hm
  obtain ⟨b, hb, hf⟩ := hf a ha
  exact ⟨b, hb, hm.andThen hf⟩

theorem afterPoll {due : Bool} {f : Unit → Polling β} (hf : Ensures stop (f ()) Q) :
    Ensures stop ((pollIf stop due).andThen f) Q := by
  obtain ⟨b, hb, hf⟩ := hf
  exact ⟨b, hb, (Yields.pollIf due).andThen hf⟩

end Ensures

/-- A computation that has an answer also when it is told to stop. -/
def withDefault (a : α) (m : Polling α) : Polling α := fun n => (some ((m n).1.getD a), (m n).2)

/-- One of the polls from the first number up to the second says stop. -/
def Told (n n' : Nat) : Prop := ∃ k, n ≤ k ∧ k < n' ∧ stop k = true

theorem Ensures.withDefault {stop : Nat → Bool} {m : Polling α} {P : α → Prop}
    (h : Ensures stop m P) (a : α) (n : Nat) :
    ∃ b, (m.withDefault a n).1 = some b ∧ (P b ∨ b = a ∧ Told stop n (m.withDefault a n).2) := by
  obtain ⟨b, hb, hm⟩ := h
  cases hrun : (m n).1 with
  | none =>
    refine ⟨a, ?_, .inr ⟨rfl, (hm.run_eq_none_iff n).mp hrun⟩⟩
    rw [Polling.withDefault, hrun]
    rfl
  | some b' =>
    obtain rfl := hm.run_eq_some hrun
    refine ⟨b', ?_, .inl hb⟩
    rw [Polling.withDefault, hrun]
    rfl

/-- Every value has the property, whatever the answers are. -/
def Always (m : Polling α) (P : α → Prop) : Prop := ∀ n a, (m n).1 = some a → P a

namespace Always
variable {stop : Nat → Bool} {m : Polling α} {f : α → Polling β} {P : α → Prop} {Q : β → Prop}

theorem value {a : α} (h : P a) : Always (Polling.value a) P := by
  intro n b hb
  obtain rfl := Option.some.inj hb
  exact h

theorem andThen (hm : Always m P) (hf : ∀ a, P a → Always (f a) Q) : Always (m.andThen f) Q := by
  intro n b hb
  rw [Polling.andThen] at hb
  split at hb
  · next a ha => exact hf a (hm n a ha) _ b hb
  · cases hb

theorem after (hf : ∀ a, Always (f a) Q) : Always (m.andThen f) Q :=
  andThen (P := fun _ => True) (fun _ _ _ => trivial) fun a _ => hf a

theorem withDefault {a : α} (hm : Always m P) (ha : P a) : Always (m.withDefault a) P := by
  intro n b hb
  obtain rfl := Option.some.inj hb
  cases hrun : (m n).1 with
  | none => exact ha
  | some b => exact hm n b hrun

end Always

end Polling
end FractalStudio
