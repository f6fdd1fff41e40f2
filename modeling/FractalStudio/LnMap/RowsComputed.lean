import FractalStudio.LnMap.BandCoverage

/-!
# Every pass computes every row

The passes that come to the banded field with a variant that has a SIMD kernel compute all rows when
the bands are served; all the others compute them whatever fails, in any schedule.
-/
noncomputable section
namespace FractalStudio.LnMap

open ClaimPool Spans

variable {C : Type} {p : LnMapParams C} {m : Machine} {e : Run} {threads : ℕ}

section InOrder
variable {α : Type} {span : α → ℕ × ℕ} {render : α → Option (List Write)} {parts : List α} {a b : ℕ}
  {writes : List Write}

/-- The writes of a part stay in its rows. -/
def StaysWithin (span : α → ℕ × ℕ) (render : α → Option (List Write)) (part : α) : Prop :=
  (span part).1 ≤ (span part).2 → ∀ w, render part = some w → Within (span part).1 (span part).2 w

theorem tiles_map_cons {part : α} (h : Tiles a b ((part :: parts).map span)) :
    a = (span part).1 ∧ (span part).1 < (span part).2 ∧ Tiles (span part).2 b (parts.map span) := by
  rw [List.map_cons] at h
  cases hspan : span part with
  | mk first last =>
    rw [hspan] at h
    cases h with
    | cons hlt hrest => exact ⟨rfl, hlt, hrest⟩

theorem inOrder_cons {part : α} (h : inOrder render (part :: parts) = some writes) :
    ∃ first rest, render part = some first ∧ inOrder render parts = some rest ∧
      writes = first ++ rest := by
  rw [inOrder] at h
  obtain ⟨first, hfirst, h⟩ := Option.bind_eq_some_iff.mp h
  obtain ⟨rest, hrest, h⟩ := Option.bind_eq_some_iff.mp h
  exact ⟨first, rest, hfirst, hrest, (Option.some.inj h).symm⟩

theorem inOrder_writes (h : inOrder render parts = some writes) :
    (∀ w ∈ writes, ∃ part ∈ parts, ∃ own, render part = some own ∧ w ∈ own) ∧
      ∀ part ∈ parts, ∃ own, render part = some own ∧ ∀ w ∈ own, w ∈ writes := by
  induction parts generalizing writes with
  | nil =>
    cases h
    exact ⟨fun w hw => absurd hw List.not_mem_nil, fun part hpart => absurd hpart List.not_mem_nil⟩
  | cons part parts ih =>
    obtain ⟨first, rest, hfirst, hrest, rfl⟩ := inOrder_cons h
    obtain ⟨hfrom, hinto⟩ := ih hrest
    constructor
    · intro w hw
      obtain hw | hw := List.mem_append.mp hw
      · exact ⟨part, List.mem_cons_self, first, hfirst, hw⟩
      · obtain ⟨other, hother, own, hown, hmem⟩ := hfrom w hw
        exact ⟨other, List.mem_cons_of_mem _ hother, own, hown, hmem⟩
    · intro other hother
      obtain rfl | hother := List.mem_cons.mp hother
      · exact ⟨first, hfirst, fun w hw => List.mem_append_left _ hw⟩
      · obtain ⟨own, hown, hmem⟩ := hinto other hother
        exact ⟨own, hown, fun w hw => List.mem_append_right _ (hmem w hw)⟩

theorem inOrder_covers (h : Tiles a b (parts.map span))
    (hpart : ∀ part ∈ parts, (span part).1 ≤ (span part).2 → ∀ w, render part = some w →
      CoversFrom (span part).1 (span part).2 w)
    (hw : inOrder render parts = some writes) : CoversFrom a b writes := by
  induction parts generalizing a writes with
  | nil =>
    cases h
    exact fun row hlow hhigh => absurd hlow (Nat.not_le.mpr hhigh)
  | cons part parts ih =>
    obtain ⟨rfl, hlt, hrest⟩ := tiles_map_cons h
    obtain ⟨first, rest, hfirst, hothers, rfl⟩ := inOrder_cons hw
    have hcovers := hpart part List.mem_cons_self hlt.le first hfirst
    refine hcovers.join (ih hrest (fun part hmem => ?_) hothers)
    exact hpart part (List.mem_cons_of_mem _ hmem)

theorem inOrder_within (h : Tiles a b (parts.map span))
    (hpart : ∀ part ∈ parts, StaysWithin span render part)
    (hw : inOrder render parts = some writes) : Within a b writes := by
  induction parts generalizing a writes with
  | nil =>
    cases hw
    exact within_nil
  | cons part parts ih =>
    obtain ⟨rfl, hlt, hrest⟩ := tiles_map_cons h
    obtain ⟨first, rest, hfirst, hothers, rfl⟩ := inOrder_cons hw
    have hin := hpart part List.mem_cons_self hlt.le first hfirst
    have hothers := ih hrest (fun part hmem => hpart part (List.mem_cons_of_mem _ hmem)) hothers
    have hle := hrest.le
    intro w hmem
    rcases List.mem_append.mp hmem with hmem | hmem
    · have hw := hin w hmem
      exact ⟨hw.1, by omega⟩
    · have hw := hothers w hmem
      exact ⟨by omega, hw.2⟩

theorem inOrder_misses (h : Tiles a b (parts.map span))
    (hpart : ∀ part ∈ parts, StaysWithin span render part) {missed : α} (hmem : missed ∈ parts)
    {row : ℕ} (hrow : (span missed).1 ≤ row ∧ row < (span missed).2)
    (hmissed : ∀ w, render missed = some w → ∀ x ∈ w, ¬ x.Has row)
    (hw : inOrder render parts = some writes) :
    a ≤ row ∧ row < b ∧ ∀ w ∈ writes, ¬ w.Has row := by
  induction parts generalizing a writes with
  | nil => exact absurd hmem List.not_mem_nil
  | cons part parts ih =>
    obtain ⟨rfl, hlt, hrest⟩ := tiles_map_cons h
    obtain ⟨first, rest, hfirst, hothers, rfl⟩ := inOrder_cons hw
    have hothersPart : ∀ part ∈ parts, StaysWithin span render part :=
      fun part hmem => hpart part (List.mem_cons_of_mem _ hmem)
    have hle := hrest.le
    rcases List.mem_cons.mp hmem with rfl | hlater
    · have hin := inOrder_within hrest hothersPart hothers
      refine ⟨hrow.1, by omega, fun w hw => ?_⟩
      rcases List.mem_append.mp hw with hw | hw
      · exact hmissed first hfirst w hw
      · intro hhas
        have hstart := (hin w hw).1
        have hlow := hhas.1
        omega
    · obtain ⟨hlow, hhigh, hmiss⟩ := ih hrest hothersPart hlater hothers
      refine ⟨by omega, hhigh, fun w hw => ?_⟩
      rcases List.mem_append.mp hw with hw | hw
      · intro hhas
        have hstop := (hpart part List.mem_cons_self hlt.le first hfirst w hw).2
        have hafter := hhas.2
        omega
      · exact hmiss w hw

theorem inOrder_ends (h : ∀ part ∈ parts, ∃ w, render part = some w) :
    ∃ writes, inOrder render parts = some writes := by
  induction parts with
  | nil => exact ⟨[], rfl⟩
  | cons part parts ih =>
    obtain ⟨first, hfirst⟩ := h part List.mem_cons_self
    obtain ⟨rest, hrest⟩ := ih fun part hmem => h part (List.mem_cons_of_mem _ hmem)
    exact ⟨first ++ rest, by rw [inOrder, hfirst, hrest]; rfl⟩

end InOrder

namespace LnMapParams

/-! ## The fast field -/

theorem itersBands_tile : Tiles 0 p.heightT ((p.itersBands m e).map LnRenderBand.rows) :=
  fastBands_tile _ _

theorem computeLnFieldFast_eq (h : p.simdVariant = true) (progress : Bool) :
    p.computeLnFieldFast m e progress = inOrder (p.fastItersBand m e) (p.itersBands m e) := by
  rw [computeLnFieldFast, h]
  rfl

theorem computeLnFieldFast_slow (hsimd : ¬ p.simdVariant = true) (progress : Bool) :
    p.computeLnFieldFast m e progress = p.computeLnField m e progress := by
  have hfalse := Bool.eq_false_of_not_eq_true hsimd
  have hcuda : p.cudaFast m = false := by
    rw [cudaFast, hfalse]
    rfl
  rw [computeLnFieldFast, hcuda, hfalse]
  rfl

theorem computeLnFieldFast_covers {progress : Bool}
    (hserved : p.simdVariant = true → p.BandsServed m e) {writes : List Write}
    (h : p.computeLnFieldFast m e progress = some writes) : CoversFrom 0 p.heightT writes := by
  cases hsimd : p.simdVariant with
  | true =>
    rw [computeLnFieldFast_eq hsimd] at h
    refine inOrder_covers itersBands_tile (fun band hmem hle w hw => ?_) h
    apply fastItersBand_covers hle _ hw
    exact (hserved hsimd).imp_right (Or.imp_right fun hbands => hbands band hmem)
  | false =>
    rw [computeLnFieldFast_slow (Bool.eq_false_iff.mp hsimd)] at h
    exact computeLnField_covers h

theorem computeLnFieldFast_within {progress : Bool} (hsimd : p.simdVariant = true)
    {writes : List Write} (h : p.computeLnFieldFast m e progress = some writes) :
    Within 0 p.heightT writes := by
  rw [computeLnFieldFast_eq hsimd] at h
  exact inOrder_within itersBands_tile (fun band _ hle w hw => fastItersBand_within hle hw) h

theorem computeLnFieldFast_misses (hsimd : p.simdVariant = true)
    (hserved : ¬ p.BandsServed m e) (progress : Bool) :
    ∃ writes, p.computeLnFieldFast m e progress = some writes ∧
      ∃ row < p.heightT, ∀ w ∈ writes, ¬ w.Has row := by
  unfold BandsServed at hserved
  push Not at hserved
  obtain ⟨hnosimd, hnocuda, band, hmem, hband⟩ := hserved
  have hnosimd' : ¬ (p.simdItersKernel m).isSome = true := fun h => hnosimd h
  have hends : ∃ writes, inOrder (p.fastItersBand m e) (p.itersBands m e) = some writes :=
    inOrder_ends fun band _ => fastItersBand_ends hnosimd' fun h => hnocuda h.1 h.2
  obtain ⟨writes, hw⟩ := hends
  have hbounds := itersBands_tile.mem_bounds (List.mem_map_of_mem hmem)
  have hlt : band.start < band.stop := hbounds.2.1
  have hlast : band.rows.1 ≤ band.stop - 1 ∧ band.stop - 1 < band.rows.2 := by
    show band.start ≤ band.stop - 1 ∧ band.stop - 1 < band.stop
    omega
  have hmissed (w : List Write) (hw : p.fastItersBand m e band = some w) :
      ∀ x ∈ w, ¬ x.Has (band.stop - 1) := by
    intro x hx hhas
    have hstop := fastItersBand_last hlt.le hnosimd' hband hw x hx
    have hafter := hhas.2
    omega
  obtain ⟨-, hrow, hmiss⟩ := inOrder_misses itersBands_tile
    (fun band _ hle w hw => fastItersBand_within hle hw) hmem hlast hmissed hw
  rw [← computeLnFieldFast_eq hsimd progress] at hw
  exact ⟨writes, hw, band.stop - 1, hrow, hmiss⟩

end LnMapParams

end FractalStudio.LnMap

end
