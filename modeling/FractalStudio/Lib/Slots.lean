import FractalStudio.Lib.Table

/-!
# Tables whose rows come and go

What is in flight in a system (calls, processes, sessions) is a table that is written and cleared
under one key at a time. Both operations are characterised by what `find?` reads afterwards, and
a test of all rows by the rows that `find?` reads.
-/
namespace FractalStudio.Table

universe u v
variable {κ : Type u} {ρ : Type v} [DecidableEq κ]

/-- Write the row of a key. -/
def put (t : Table κ ρ) (k : κ) (r : ρ) : Table κ ρ := t.upsert k r fun _ => r

/-- Clear the row of a key. -/
def erase (t : Table κ ρ) (k : κ) : Table κ ρ where
  rows := t.rows.filter fun x => x.1 ≠ k
  nodup := t.nodup.sublist (List.filter_sublist.map Prod.fst)

/-- Keep the rows that satisfy a predicate. -/
def restrict (t : Table κ ρ) (p : κ → ρ → Bool) : Table κ ρ where
  rows := t.rows.filter fun x => p x.1 x.2
  nodup := t.nodup.sublist (List.filter_sublist.map Prod.fst)

def any (t : Table κ ρ) (p : κ → ρ → Bool) : Bool := t.rows.any fun x => p x.1 x.2

theorem find?_put (t : Table κ ρ) (k : κ) (r : ρ) (j : κ) :
    (t.put k r).find? j = if j = k then some r else t.find? j := by
  rw [put, find?_upsert]
  cases t.find? k <;> rfl

@[simp] theorem find?_put_self (t : Table κ ρ) (k : κ) (r : ρ) : (t.put k r).find? k = some r := by
  rw [find?_put, if_pos rfl]

theorem find?_put_ne (t : Table κ ρ) {j k : κ} (r : ρ) (h : j ≠ k) :
    (t.put k r).find? j = t.find? j := by
  rw [find?_put, if_neg h]

theorem find?_of_put {t : Table κ ρ} {k j : κ} {r q : ρ} (h : (t.put k r).find? j = some q) :
    j = k ∧ q = r ∨ j ≠ k ∧ t.find? j = some q := by
  rw [find?_put] at h
  split at h
  · next hj => exact .inl ⟨hj, (Option.some.inj h).symm⟩
  · next hj => exact .inr ⟨hj, h⟩

theorem find?_erase (t : Table κ ρ) (k j : κ) :
    (t.erase k).find? j = if j = k then none else t.find? j := by
  split
  · next hj =>
    rw [find?_eq_none_iff, hj]
    simp [erase]
  · next hj =>
    cases hr : t.find? j with
    | none =>
      rw [find?_eq_none_iff] at hr ⊢
      exact fun hm => hr (List.map_subset Prod.fst (List.filter_subset_self _) hm)
    | some r =>
      rw [find?_eq_some_iff] at hr ⊢
      exact List.mem_filter.mpr ⟨hr, by simpa using hj⟩

theorem find?_of_erase {t : Table κ ρ} {k j : κ} {q : ρ} (h : (t.erase k).find? j = some q) :
    j ≠ k ∧ t.find? j = some q := by
  rw [find?_erase] at h
  split at h
  · cases h
  · next hj => exact ⟨hj, h⟩

theorem find?_restrict_eq_some {t : Table κ ρ} {p : κ → ρ → Bool} {k : κ} {r : ρ} :
    (t.restrict p).find? k = some r ↔ t.find? k = some r ∧ p k r = true := by
  rw [find?_eq_some_iff, find?_eq_some_iff, restrict, List.mem_filter]

theorem any_eq_true {t : Table κ ρ} {p : κ → ρ → Bool} :
    t.any p = true ↔ ∃ k r, t.find? k = some r ∧ p k r = true := by
  rw [any, List.any_eq_true]
  constructor
  · rintro ⟨⟨k, r⟩, hm, hp⟩
    exact ⟨k, r, find?_eq_some_iff.mpr hm, hp⟩
  · rintro ⟨k, r, hr, hp⟩
    exact ⟨(k, r), find?_eq_some_iff.mp hr, hp⟩

theorem any_eq_false {t : Table κ ρ} {p : κ → ρ → Bool} :
    t.any p = false ↔ ∀ k r, t.find? k = some r → p k r = false := by
  rw [Bool.eq_false_iff, ne_eq, any_eq_true]
  constructor
  · intro h k r hr
    exact Bool.eq_false_iff.mpr fun hp => h ⟨k, r, hr, hp⟩
  · rintro h ⟨k, r, hr, hp⟩
    rw [h k r hr] at hp
    cases hp

omit [DecidableEq κ] in
theorem select_updateWhere (t : Table κ ρ) {p q : κ → ρ → Bool} {f : κ → ρ → ρ}
    (h : ∀ k r, p k (f k r) = p k r) :
    (t.updateWhere q f).select p =
      (t.select p).map fun x => (x.1, if q x.1 x.2 then f x.1 x.2 else x.2) := by
  unfold select updateWhere
  rw [List.filter_map]
  congr 1
  apply List.filter_congr
  intro x _
  show p x.1 (if q x.1 x.2 then f x.1 x.2 else x.2) = p x.1 x.2
  split
  · exact h x.1 x.2
  · rfl

theorem select_insert {t t' : Table κ ρ} {k : κ} {r : ρ} (h : t.insert? k r = some t')
    (p : κ → ρ → Bool) : t'.select p = t.select p ++ if p k r then [(k, r)] else [] := by
  unfold select
  rw [(insert?_eq_some h).2, List.filter_append]
  cases hp : p k r <;> simp [hp]

end FractalStudio.Table
