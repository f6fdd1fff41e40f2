import Mathlib.Algebra.BigOperators.Group.List.Basic
import Mathlib.Algebra.Order.BigOperators.Group.List
import Mathlib.Algebra.Order.Ring.Nat
import Mathlib.Data.List.Nodup

/-!
# Tables with a primary key

A table is its list of rows in insertion order, with no two rows of one key. `find?` reads a table
as a partial function; every operation is characterised by what it does to `find?` and to `sum`, and
no later proof looks at the row list.
-/
namespace FractalStudio

universe u v w

structure Table (κ : Type u) (ρ : Type v) where
  rows : List (κ × ρ)
  nodup : (rows.map Prod.fst).Nodup

namespace Table

variable {κ : Type u} {ρ : Type v} {M : Type w}

def empty : Table κ ρ := ⟨[], List.nodup_nil⟩

/-- The rows that satisfy a predicate, in insertion order. -/
def select (t : Table κ ρ) (p : κ → ρ → Bool) : List (κ × ρ) := t.rows.filter fun r => p r.1 r.2

/-- Update every row that satisfies a predicate; keys stay as they are. -/
def updateWhere (t : Table κ ρ) (p : κ → ρ → Bool) (f : κ → ρ → ρ) : Table κ ρ where
  rows := t.rows.map fun r => (r.1, if p r.1 r.2 then f r.1 r.2 else r.2)
  nodup := by simpa only [List.map_map, Function.comp_def] using t.nodup

/-- Add up a measure of the rows. -/
def sum [AddMonoid M] (t : Table κ ρ) (g : κ → ρ → M) : M := (t.rows.map fun r => g r.1 r.2).sum

section Sum
variable [AddCommMonoid M]

@[simp] theorem sum_empty (g : κ → ρ → M) : (empty : Table κ ρ).sum g = 0 := rfl

theorem sum_updateWhere (t : Table κ ρ) (p : κ → ρ → Bool) (f : κ → ρ → ρ) (g : κ → ρ → M) :
    (t.updateWhere p f).sum g = t.sum fun k r => g k (if p k r then f k r else r) := by
  simp only [sum, updateWhere, List.map_map, Function.comp_def]

private theorem sum_replace (k : κ) (r : ρ) (a b : κ → ρ → M) (rows : List (κ × ρ))
    (nodup : (rows.map Prod.fst).Nodup) (hm : (k, r) ∈ rows)
    (hab : ∀ x ∈ rows, x.1 ≠ k → a x.1 x.2 = b x.1 x.2) :
    (rows.map fun x => a x.1 x.2).sum + b k r = (rows.map fun x => b x.1 x.2).sum + a k r := by
  induction rows with
  | nil => cases hm
  | cons x rows ih =>
    simp only [List.map_cons, List.nodup_cons] at nodup
    simp only [List.map_cons, List.sum_cons]
    rcases List.mem_cons.mp hm with rfl | hm
    · have hrest : rows.map (fun x => a x.1 x.2) = rows.map fun x => b x.1 x.2 := by
        apply List.map_congr_left
        intro y hy
        refine hab y (List.mem_cons_of_mem _ hy) ?_
        rintro rfl
        exact nodup.1 (List.mem_map.mpr ⟨y, hy, rfl⟩)
      rw [hrest]
      exact add_right_comm _ _ _ |>.trans (by rw [add_comm (a _ _), add_right_comm])
    · have hx : x.1 ≠ k := by
        rintro rfl
        exact nodup.1 (List.mem_map.mpr ⟨(x.1, r), hm, rfl⟩)
      rw [hab x List.mem_cons_self hx, add_assoc, add_assoc,
        ih nodup.2 hm fun y hy => hab y (List.mem_cons_of_mem _ hy)]

end Sum

variable [DecidableEq κ]

def find? (t : Table κ ρ) (k : κ) : Option ρ := (t.rows.find? fun r => r.1 = k).map Prod.snd

/-- Update the row of one key; a missing key changes nothing. -/
def modify (t : Table κ ρ) (k : κ) (f : ρ → ρ) : Table κ ρ :=
  t.updateWhere (fun j _ => j = k) fun _ => f

variable {t : Table κ ρ} {k : κ} {r : ρ}

theorem find?_eq_some_iff :
    t.find? k = some r ↔ (k, r) ∈ t.rows := by
  obtain ⟨rows, nodup⟩ := t
  simp only [find?]
  induction rows with
  | nil => simp
  | cons x rows ih =>
    obtain ⟨j, q⟩ := x
    simp only [List.map_cons, List.nodup_cons] at nodup
    by_cases hj : j = k
    · subst j
      have hno : ∀ r', (k, r') ∉ rows := fun r' hm =>
        nodup.1 (List.mem_map.mpr ⟨(k, r'), hm, rfl⟩)
      simp only [List.find?_cons, decide_true, Option.map_some, Option.some.injEq, List.mem_cons,
        Prod.mk.injEq, true_and, hno, or_false]
      exact eq_comm
    · have hne : ¬ (k = j ∧ r = q) := fun h => hj h.1.symm
      simpa only [List.find?_cons, hj, decide_false, List.mem_cons, Prod.mk.injEq, hne, false_or]
        using ih nodup.2

theorem find?_eq_none_iff :
    t.find? k = none ↔ k ∉ t.rows.map Prod.fst := by
  rw [Option.eq_none_iff_forall_ne_some, List.mem_map]
  constructor
  · rintro h ⟨⟨j, r⟩, hm, rfl⟩
    exact h r (find?_eq_some_iff.mpr hm)
  · intro h r hr
    exact h ⟨(k, r), find?_eq_some_iff.mp hr, rfl⟩

/-- Insert under a key that is not in use; `none` is the uniqueness violation. -/
def insert? (t : Table κ ρ) (k : κ) (r : ρ) : Option (Table κ ρ) :=
  if h : t.find? k = none then
    some ⟨t.rows ++ [(k, r)], by
      rw [List.map_append]
      exact t.nodup.append (List.nodup_singleton k)
        (List.disjoint_singleton.mpr (find?_eq_none_iff.mp h))⟩
  else none

/-- Insert under a key unless it is in use: `ON CONFLICT DO NOTHING`. -/
def insertIfAbsent (t : Table κ ρ) (k : κ) (r : ρ) : Table κ ρ := (t.insert? k r).getD t

/-- Insert under a key or update the row that has it: `ON CONFLICT DO UPDATE`. -/
def upsert (t : Table κ ρ) (k : κ) (r : ρ) (f : ρ → ρ) : Table κ ρ :=
  (t.insert? k r).getD (t.modify k f)

/-! ## Reading a table after an operation -/

@[simp] theorem find?_empty (k : κ) : (empty : Table κ ρ).find? k = none := rfl

theorem mem_select {p : κ → ρ → Bool} :
    (k, r) ∈ t.select p ↔ t.find? k = some r ∧ p k r = true := by
  rw [select, List.mem_filter, find?_eq_some_iff]

omit [DecidableEq κ] in
theorem nodup_select (t : Table κ ρ) (p : κ → ρ → Bool) : ((t.select p).map Prod.fst).Nodup :=
  t.nodup.sublist (List.filter_sublist.map Prod.fst)

theorem length_le_one {α : Type w} {l : List α} (hl : l.Nodup) (h : ∀ x ∈ l, ∀ y ∈ l, x = y) :
    l.length ≤ 1 := by
  match l with
  | [] => exact Nat.zero_le 1
  | [x] => exact Nat.le_refl 1
  | x :: y :: l =>
    have heq : x = y := h x List.mem_cons_self y (List.mem_cons_of_mem _ List.mem_cons_self)
    rw [heq] at hl
    exact absurd List.mem_cons_self (List.nodup_cons.mp hl).1

theorem find?_updateWhere (t : Table κ ρ) (p : κ → ρ → Bool) (f : κ → ρ → ρ) (k : κ) :
    (t.updateWhere p f).find? k = (t.find? k).map fun r => if p k r then f k r else r := by
  cases h : t.find? k with
  | none =>
    rw [find?_eq_none_iff] at h
    simpa only [Option.map_none, find?_eq_none_iff, updateWhere, List.map_map, Function.comp_def]
      using h
  | some r =>
    rw [find?_eq_some_iff] at h
    rw [Option.map_some, find?_eq_some_iff, updateWhere]
    exact List.mem_map.mpr ⟨(k, r), h, rfl⟩

theorem find?_modify (t : Table κ ρ) (k : κ) (f : ρ → ρ) (j : κ) :
    (t.modify k f).find? j = if j = k then (t.find? j).map f else t.find? j := by
  rw [modify, find?_updateWhere]
  by_cases hj : j = k <;> simp [hj]

@[simp] theorem find?_modify_self (t : Table κ ρ) (k : κ) (f : ρ → ρ) :
    (t.modify k f).find? k = (t.find? k).map f := by simp [find?_modify]

theorem find?_modify_ne (t : Table κ ρ) {j : κ} (f : ρ → ρ) (h : j ≠ k) :
    (t.modify k f).find? j = t.find? j := by simp [find?_modify, h]

theorem insert?_eq_some {t' : Table κ ρ} (h : t.insert? k r = some t') :
    t.find? k = none ∧ t'.rows = t.rows ++ [(k, r)] := by
  unfold insert? at h
  split at h
  · next hk =>
    obtain rfl := Option.some.inj h
    exact ⟨hk, rfl⟩
  · cases h

theorem find?_insert {t' : Table κ ρ} (h : t.insert? k r = some t') (j : κ) :
    t'.find? j = if j = k then some r else t.find? j := by
  obtain ⟨hk, hr⟩ := insert?_eq_some h
  by_cases hj : j = k
  · subst j
    rw [if_pos rfl, find?_eq_some_iff, hr]
    simp
  · rw [if_neg hj]
    apply Option.ext
    intro q
    rw [find?_eq_some_iff, find?_eq_some_iff, hr, List.mem_append, List.mem_singleton]
    simp [hj]

theorem exists_insert (h : t.find? k = none) (r : ρ) :
    ∃ t', t.insert? k r = some t' := by simp [insert?, h]

theorem find?_of_insert {t' : Table κ ρ} {j : κ} {q : ρ} (h : t.insert? k r = some t')
    (hj : t.find? j = some q) : t'.find? j = some q := by
  rw [find?_insert h, if_neg]
  · exact hj
  · rintro rfl
    rw [(insert?_eq_some h).1] at hj
    cases hj

theorem insert?_eq_none {q : ρ} (h : t.find? k = some q) (r : ρ) :
    t.insert? k r = none := by simp [insert?, h]

theorem find?_insertIfAbsent (t : Table κ ρ) (k : κ) (r : ρ) (j : κ) :
    (t.insertIfAbsent k r).find? j = if j = k then some ((t.find? k).getD r) else t.find? j := by
  unfold insertIfAbsent
  cases h : t.find? k with
  | none =>
    obtain ⟨t', ht'⟩ := exists_insert h r
    rw [ht', Option.getD_some, find?_insert ht']
    rfl
  | some q =>
    rw [insert?_eq_none h]
    by_cases hj : j = k
    · rw [if_pos hj, hj, Option.getD_none, h]
      rfl
    · rw [if_neg hj]
      rfl

theorem find?_upsert (t : Table κ ρ) (k : κ) (r : ρ) (f : ρ → ρ) (j : κ) :
    (t.upsert k r f).find? j = if j = k then some (((t.find? k).map f).getD r) else t.find? j := by
  unfold upsert
  cases h : t.find? k with
  | none =>
    obtain ⟨t', ht'⟩ := exists_insert h r
    rw [ht', Option.getD_some, find?_insert ht']
    rfl
  | some q =>
    rw [insert?_eq_none h, Option.getD_none, find?_modify]
    by_cases hj : j = k
    · rw [if_pos hj, if_pos hj, hj, h]
      rfl
    · rw [if_neg hj, if_neg hj]

/-- No two rows have the same value in the column. -/
def UniqueBy {γ : Type w} (t : Table κ ρ) (c : ρ → γ) : Prop :=
  ∀ k₁ r₁ k₂ r₂, t.find? k₁ = some r₁ → t.find? k₂ = some r₂ → c r₁ = c r₂ → k₁ = k₂

/-- An index stays unique when each row keeps its value, or is the one inserted row and has
a value that no row had. -/
theorem UniqueBy.write {γ : Type w} {t' : Table κ ρ} {c : ρ → γ} (hu : t.UniqueBy c)
    (hkept : ∀ k r r', t.find? k = some r → t'.find? k = some r' → c r' = c r)
    (hnew : ∀ k r', t.find? k = none → t'.find? k = some r' →
      t.insert? k r' = some t' ∧ ∀ k₀ r₀, t.find? k₀ = some r₀ → c r₀ ≠ c r') :
    t'.UniqueBy c := by
  intro k₁ r₁ k₂ r₂ h₁ h₂ hc
  cases hold₁ : t.find? k₁ with
  | some old₁ =>
    have hc₁ := hkept k₁ old₁ r₁ hold₁ h₁
    cases hold₂ : t.find? k₂ with
    | some old₂ =>
      have hc₂ := hkept k₂ old₂ r₂ hold₂ h₂
      exact hu k₁ old₁ k₂ old₂ hold₁ hold₂ (hc₁.symm.trans (hc.trans hc₂))
    | none => exact absurd (hc₁.symm.trans hc) ((hnew k₂ r₂ hold₂ h₂).2 k₁ old₁ hold₁)
  | none =>
    obtain ⟨hins, hfree⟩ := hnew k₁ r₁ hold₁ h₁
    cases hold₂ : t.find? k₂ with
    | some old₂ =>
      have hc₂ := hkept k₂ old₂ r₂ hold₂ h₂
      exact absurd (hc₂.symm.trans hc.symm) (hfree k₂ old₂ hold₂)
    | none =>
      have hfind := find?_insert hins k₂
      rw [h₂, hold₂] at hfind
      split at hfind
      · next heq => exact heq.symm
      · cases hfind

section Sum
variable [AddCommMonoid M]

theorem sum_insert {t' : Table κ ρ} (h : t.insert? k r = some t') (g : κ → ρ → M) :
    t'.sum g = t.sum g + g k r := by
  rw [sum, (insert?_eq_some h).2, List.map_append, List.sum_append]
  simp [sum]

theorem sum_modify (hk : t.find? k = some r) (f : ρ → ρ) (g : κ → ρ → M) :
    (t.modify k f).sum g + g k r = t.sum g + g k (f r) := by
  rw [modify, sum_updateWhere]
  have h := sum_replace k r (fun j q => g j (if decide (j = k) = true then f q else q)) g t.rows
    t.nodup (find?_eq_some_iff.mp hk) (fun x _ hx => by simp [hx])
  simpa only [sum, decide_true, ↓reduceIte] using h

end Sum

omit [DecidableEq κ] in
theorem length_select (t : Table κ ρ) (p : κ → ρ → Bool) :
    (t.select p).length = t.sum fun k r => if p k r then 1 else 0 := by
  rw [select, ← List.countP_eq_length_filter, sum]
  induction t.rows with
  | nil => rfl
  | cons x rows ih =>
    rw [List.countP_cons, ih, List.map_cons, List.sum_cons, Nat.add_comm]

variable {g : κ → ρ → Nat}

theorem sum_le_sum {g' : κ → ρ → Nat} (h : ∀ k r, t.find? k = some r → g k r ≤ g' k r) :
    t.sum g ≤ t.sum g' := by
  unfold sum
  apply List.sum_le_sum
  rintro ⟨k, r⟩ hm
  exact h k r (find?_eq_some_iff.mpr hm)

theorem sum_updateWhere_le {p : κ → ρ → Bool} {f : κ → ρ → ρ}
    (h : ∀ k r, t.find? k = some r → p k r = true → g k (f k r) ≤ g k r) :
    (t.updateWhere p f).sum g ≤ t.sum g := by
  rw [sum_updateWhere]
  refine sum_le_sum fun k r hr => ?_
  split
  · next hp => exact h k r hr hp
  · exact le_refl _

theorem sum_modify_le {f : ρ → ρ} (h : ∀ r, t.find? k = some r → g k (f r) ≤ g k r) :
    (t.modify k f).sum g ≤ t.sum g := by
  refine sum_updateWhere_le fun j r hr hj => ?_
  obtain rfl := of_decide_eq_true hj
  exact h r hr

theorem sum_eq_zero (h : ∀ k r, t.find? k = some r → g k r = 0) :
    t.sum g = 0 := by
  have hle : t.sum g ≤ t.sum fun _ _ => 0 := sum_le_sum fun k r hr => (h k r hr).le
  have hzero : (t.sum fun _ _ => 0) = 0 := by simp [sum]
  omega

end Table
end FractalStudio
