import FractalStudio.Compute.FixedRange

/-!
# Fixed-point pixels

`fixed_pixel_re_raw` and `fixed_pixel_im_raw` of `fx64_raw.hpp`. A span is cut into half pixels; the
product of the span and an odd number of them is split so that it need not fit a word. Here every
64-bit operation is done over the integers, and fails where its result is no word.
`fixed_viewport_representable` looks at the first and the last pixel, not at the edges of the
viewport.
-/
namespace FractalStudio.Compute

/-! ## Spans in half pixels -/

/-- How far the middle of a pixel lies from the edge, rounded down. -/
def exactOffset (span : Int) (n x : Nat) : Int := span * (2 * x + 1) / (2 * n)

section Offset
variable {span a b d : Int} {n x y : Nat}

theorem split_ediv (span a : Int) {d : Int} (hd : 0 < d) :
    span / d * a + span % d * a / d = span * a / d := by
  have hwhole : span * a = d * (span / d * a) + span % d * a := by
    calc span * a = (d * (span / d) + span % d) * a := by rw [Int.mul_ediv_add_emod]
      _ = d * (span / d * a) + span % d * a := by ring
  rw [hwhole, Int.mul_add_ediv_left _ _ (ne_of_gt hd)]

theorem neg_ediv_eq (span : Int) {d : Int} (hd : 0 < d) : -span / d = -((span + (d - 1)) / d) := by
  have hdivide := Int.mul_ediv_add_emod (span + (d - 1)) d
  have hlow := Int.emod_nonneg (span + (d - 1)) (ne_of_gt hd)
  have hhigh := Int.emod_lt_of_pos (span + (d - 1)) hd
  generalize (span + (d - 1)) / d = q at *
  generalize (span + (d - 1)) % d = r at *
  have hsum : -span = d - 1 - r + d * -q := by
    rw [Int.mul_neg]
    omega
  rw [hsum, Int.add_mul_ediv_left _ _ (ne_of_gt hd), Int.ediv_eq_zero_of_lt (by omega) (by omega)]
  exact Int.zero_add _

theorem exactOffset_mono (hspan : 0 ≤ span) (hn : 0 < n) (hxy : x ≤ y) :
    exactOffset span n x ≤ exactOffset span n y := by
  have hfactor : 2 * (x : Int) + 1 ≤ 2 * y + 1 := by omega
  exact Int.ediv_le_ediv (by omega) (Int.mul_le_mul_of_nonneg_left hfactor hspan)

theorem exactOffset_nonneg (hspan : 0 ≤ span) : 0 ≤ exactOffset span n x :=
  Int.ediv_nonneg (Int.mul_nonneg hspan (by omega)) (by omega)

theorem exactOffset_last (hn : 0 < n) :
    exactOffset span n (n - 1) = span - (span + (2 * n - 1)) / (2 * n) := by
  have hfactor : span * (2 * ((n - 1 : Nat) : Int) + 1) = -span + 2 * n * span := by
    rw [Nat.cast_sub hn]
    push_cast
    ring
  rw [exactOffset, hfactor, Int.add_mul_ediv_left _ _ (by omega), neg_ediv_eq span (by omega)]
  ring

theorem exactOffset_le (hspan : 0 ≤ span) (hx : x < n) :
    exactOffset span n x ≤ exactOffset span n (n - 1) :=
  exactOffset_mono hspan (by omega) (by omega)

end Offset

/-! ## Pixels with every operation checked -/

/-- The offset of a pixel, where each result fits a word. -/
def checkedOffset (span : Int) (n x : Nat) : Option Int := do
  let denominator ← word? (2 * n)
  let twice ← word? (2 * x)
  let factor ← word? (twice + 1)
  let whole ← word? (span.tdiv denominator * factor)
  let part ← word? (span.tmod denominator * factor)
  word? (whole + part.tdiv denominator)

/-- `fixed_pixel_re_raw` of a centre and a span. -/
def checkedPixelRe (center span : Int) (width x : Nat) : Option Int := do
  let offset ← checkedOffset span width x
  let edge ← word? (center - span.tdiv 2)
  word? (edge + offset)

/-- `fixed_pixel_im_raw` of a centre and a span. -/
def checkedPixelIm (center span : Int) (height y : Nat) : Option Int := do
  let offset ← checkedOffset span height y
  let edge ← word? (center + span.tdiv 2)
  word? (edge - offset)

section Checked
variable {span center : Int} {n x : Nat}

theorem word?_eq_some_iff {a b : Int} : word? a = some b ↔ isI64 a ∧ a = b := by
  rw [word?, Option.ite_none_right_eq_some, Option.some.injEq]

theorem isI64_of_nonneg {a : Int} (hlow : 0 ≤ a) (hhigh : a ≤ maxI64) : isI64 a := by
  have hmin : minI64 ≤ 0 := by decide
  exact ⟨hmin.trans hlow, hhigh⟩

theorem checkedOffset_eq_some_iff {offset : Int} (hspan : 0 ≤ span) (hword : span ≤ maxI64)
    (hn : n < 2 ^ 31) (hx : x < n) : checkedOffset span n x = some offset ↔
      isI64 (span % (2 * n) * (2 * x + 1)) ∧ exactOffset span n x = offset := by
  have hd : (0 : Int) < 2 * n := by omega
  have hoffset : exactOffset span n x ≤ span := by
    have hlast := exactOffset_le hspan hx
    rw [exactOffset_last (by omega)] at hlast
    have hhalf : 0 ≤ (span + (2 * n - 1)) / (2 * n) := Int.ediv_nonneg (by omega) hd.le
    omega
  have hwhole : isI64 (span / (2 * n) * (2 * x + 1)) := by
    have hquotient := Int.ediv_nonneg hspan hd.le
    refine isI64_of_nonneg (Int.mul_nonneg hquotient (by omega)) ?_
    calc span / (2 * n) * (2 * x + 1) ≤ span / (2 * n) * (2 * n) :=
          Int.mul_le_mul_of_nonneg_left (by omega) hquotient
      _ ≤ span := Int.ediv_mul_le span (ne_of_gt hd)
      _ ≤ maxI64 := hword
  have hsmall : ∀ a : Int, 0 ≤ a → a ≤ 2 ^ 32 → isI64 a := fun a hlow hhigh =>
    isI64_of_nonneg hlow (hhigh.trans (by decide))
  have hdenominator := hsmall (2 * n) (by omega) (by omega)
  have htwice := hsmall (2 * x) (by omega) (by omega)
  have hfactor := hsmall (2 * x + 1) (by omega) (by omega)
  have hproduct : 0 ≤ span % (2 * n) * (2 * x + 1) :=
    Int.mul_nonneg (Int.emod_nonneg span (ne_of_gt hd)) (by omega)
  have hsum : isI64 (exactOffset span n x) :=
    isI64_of_nonneg (exactOffset_nonneg hspan) (hoffset.trans hword)
  simp only [checkedOffset, Option.bind_eq_bind, Option.bind_eq_some_iff, word?_eq_some_iff]
  constructor
  · rintro ⟨_, ⟨-, rfl⟩, _, ⟨-, rfl⟩, _, ⟨-, rfl⟩, _, ⟨-, rfl⟩, _, ⟨hpart, rfl⟩, -, rfl⟩
    rw [Int.tmod_eq_emod_of_nonneg hspan] at hpart ⊢
    rw [Int.tdiv_eq_ediv_of_nonneg hspan, Int.tdiv_eq_ediv_of_nonneg hproduct, split_ediv _ _ hd]
    exact ⟨hpart, rfl⟩
  · rintro ⟨hpart, rfl⟩
    refine ⟨_, ⟨hdenominator, rfl⟩, _, ⟨htwice, rfl⟩, _, ⟨hfactor, rfl⟩, _, ⟨?_, rfl⟩, _,
      ⟨?_, rfl⟩, ?_⟩
    · rw [Int.tdiv_eq_ediv_of_nonneg hspan]
      exact hwhole
    · rw [Int.tmod_eq_emod_of_nonneg hspan]
      exact hpart
    · rw [Int.tmod_eq_emod_of_nonneg hspan, Int.tdiv_eq_ediv_of_nonneg hspan,
        Int.tdiv_eq_ediv_of_nonneg hproduct, split_ediv _ _ hd]
      exact ⟨hsum, rfl⟩

theorem product_fits_iff (hn : 0 < n) :
    (∀ x < n, isI64 (span % (2 * n) * (2 * x + 1))) ↔ span % (2 * n) * (2 * n - 1) ≤ maxI64 := by
  have hremainder : 0 ≤ span % (2 * n) := Int.emod_nonneg span (by omega)
  constructor
  · intro h
    have hlast := (h (n - 1) (by omega)).2
    rw [Nat.cast_sub hn] at hlast
    have hfactor : 2 * ((n : Int) - (1 : Nat)) + 1 = 2 * n - 1 := by
      push_cast
      ring
    rwa [hfactor] at hlast
  · intro h x hx
    refine isI64_of_nonneg (Int.mul_nonneg hremainder (by omega)) (le_trans ?_ h)
    exact Int.mul_le_mul_of_nonneg_left (by omega) hremainder

/-- The column is exact just if its leftmost pixel fits the word. -/
theorem checkedPixelRe_exact_iff (hspan : 0 ≤ span) (hword : span ≤ maxI64)
    (hcenter : isI64 center) (hn : 0 < n) (hint : n < 2 ^ 31) :
    (∀ x < n, checkedPixelRe center span n x = some (center - span / 2 + exactOffset span n x)) ↔
      minI64 ≤ center - span / 2 ∧
      center + (span + 1) / 2 - (span + (2 * n - 1)) / (2 * n) ≤ maxI64 ∧
      span % (2 * n) * (2 * n - 1) ≤ maxI64 := by
  have hlast : center - span / 2 + exactOffset span n (n - 1) =
      center + (span + 1) / 2 - (span + (2 * n - 1)) / (2 * n) := by
    rw [exactOffset_last hn]
    omega
  have hpixel : ∀ x < n,
      (checkedPixelRe center span n x = some (center - span / 2 + exactOffset span n x) ↔
        isI64 (span % (2 * n) * (2 * x + 1)) ∧ isI64 (center - span / 2) ∧
          isI64 (center - span / 2 + exactOffset span n x)) := by
    intro x hx
    simp only [checkedPixelRe, Option.bind_eq_bind, Option.bind_eq_some_iff, word?_eq_some_iff,
      checkedOffset_eq_some_iff hspan hword hint hx, Int.tdiv_eq_ediv_of_nonneg hspan]
    constructor
    · rintro ⟨_, ⟨hpart, rfl⟩, _, ⟨hedge, rfl⟩, hsum, -⟩
      exact ⟨hpart, hedge, hsum⟩
    · rintro ⟨hpart, hedge, hsum⟩
      exact ⟨_, ⟨hpart, rfl⟩, _, ⟨hedge, rfl⟩, hsum, rfl⟩
  rw [← hlast, ← product_fits_iff hn]
  constructor
  · intro h
    have hall := fun x hx => (hpixel x hx).mp (h x hx)
    obtain ⟨-, hedge, hfar⟩ := hall (n - 1) (by omega)
    exact ⟨hedge.1, hfar.2, fun x hx => (hall x hx).1⟩
  · rintro ⟨hedge, hfar, hparts⟩ x hx
    have hnonneg := exactOffset_nonneg (n := n) (x := x) hspan
    have hle := exactOffset_le hspan hx
    have hhigh : center - span / 2 ≤ maxI64 := by
      have hcenter := hcenter.2
      omega
    exact (hpixel x hx).mpr ⟨hparts x hx, ⟨hedge, hhigh⟩, by omega, by omega⟩

/-- The row is exact just if its topmost pixel fits the word. -/
theorem checkedPixelIm_exact_iff (hspan : 0 ≤ span) (hword : span ≤ maxI64)
    (hcenter : isI64 center) (hn : 0 < n) (hint : n < 2 ^ 31) :
    (∀ y < n, checkedPixelIm center span n y = some (center + span / 2 - exactOffset span n y)) ↔
      center + span / 2 ≤ maxI64 ∧
      minI64 ≤ center - (span + 1) / 2 + (span + (2 * n - 1)) / (2 * n) ∧
      span % (2 * n) * (2 * n - 1) ≤ maxI64 := by
  have hlast : center + span / 2 - exactOffset span n (n - 1) =
      center - (span + 1) / 2 + (span + (2 * n - 1)) / (2 * n) := by
    rw [exactOffset_last hn]
    omega
  have hpixel : ∀ y < n,
      (checkedPixelIm center span n y = some (center + span / 2 - exactOffset span n y) ↔
        isI64 (span % (2 * n) * (2 * y + 1)) ∧ isI64 (center + span / 2) ∧
          isI64 (center + span / 2 - exactOffset span n y)) := by
    intro y hy
    simp only [checkedPixelIm, Option.bind_eq_bind, Option.bind_eq_some_iff, word?_eq_some_iff,
      checkedOffset_eq_some_iff hspan hword hint hy, Int.tdiv_eq_ediv_of_nonneg hspan]
    constructor
    · rintro ⟨_, ⟨hpart, rfl⟩, _, ⟨hedge, rfl⟩, hsum, -⟩
      exact ⟨hpart, hedge, hsum⟩
    · rintro ⟨hpart, hedge, hsum⟩
      exact ⟨_, ⟨hpart, rfl⟩, _, ⟨hedge, rfl⟩, hsum, rfl⟩
  rw [← hlast, ← product_fits_iff hn]
  constructor
  · intro h
    have hall := fun y hy => (hpixel y hy).mp (h y hy)
    obtain ⟨-, hedge, hfar⟩ := hall (n - 1) (by omega)
    exact ⟨hedge.2, hfar.1, fun y hy => (hall y hy).1⟩
  · rintro ⟨hedge, hfar, hparts⟩ y hy
    have hnonneg := exactOffset_nonneg (n := n) (x := y) hspan
    have hle := exactOffset_le hspan hy
    have hlow : minI64 ≤ center + span / 2 := by
      have hcenter := hcenter.1
      omega
    exact (hpixel y hy).mpr ⟨hparts y hy, ⟨hlow, hedge⟩, by omega, by omega⟩

theorem fixedPixelOffset_eq (hspan : 0 ≤ span) (hword : span ≤ maxI64) (hint : n < 2 ^ 31)
    (hx : x < n) (hpart : isI64 (span % (2 * n) * (2 * x + 1))) :
    fixedPixelOffset span n x = exactOffset span n x := by
  have hd : (0 : Int) < 2 * n := by omega
  have hproduct : 0 ≤ span % (2 * n) * (2 * x + 1) :=
    Int.mul_nonneg (Int.emod_nonneg span (ne_of_gt hd)) (by omega)
  have hsum : isI64 (exactOffset span n x) := by
    have hchecked := (checkedOffset_eq_some_iff hspan hword hint hx).mpr ⟨hpart, rfl⟩
    simp only [checkedOffset, Option.bind_eq_bind, Option.bind_eq_some_iff,
      word?_eq_some_iff] at hchecked
    obtain ⟨_, -, _, -, _, -, _, -, _, -, hlast, heq⟩ := hchecked
    rwa [heq] at hlast
  rw [fixedPixelOffset, Int.tdiv_eq_ediv_of_nonneg hspan, Int.tmod_eq_emod_of_nonneg hspan,
    wrapI64_of_isI64 hpart, Int.tdiv_eq_ediv_of_nonneg hproduct, split_ediv _ _ hd]
  exact wrapI64_of_isI64 hsum

theorem pixelRe_of_checked {raw : Int} (hspan : 0 ≤ span) (hword : span ≤ maxI64)
    (hint : n < 2 ^ 31) (hx : x < n) (h : checkedPixelRe center span n x = some raw) :
    wrapI64 (center - span.tdiv 2 + fixedPixelOffset span n x) = raw := by
  simp only [checkedPixelRe, Option.bind_eq_bind, Option.bind_eq_some_iff, word?_eq_some_iff,
    checkedOffset_eq_some_iff hspan hword hint hx] at h
  obtain ⟨_, ⟨hpart, rfl⟩, _, ⟨-, rfl⟩, hsum, rfl⟩ := h
  rw [fixedPixelOffset_eq hspan hword hint hx hpart]
  exact wrapI64_of_isI64 hsum

theorem pixelIm_of_checked {raw : Int} (hspan : 0 ≤ span) (hword : span ≤ maxI64)
    (hint : n < 2 ^ 31) (hx : x < n) (h : checkedPixelIm center span n x = some raw) :
    wrapI64 (center + span.tdiv 2 - fixedPixelOffset span n x) = raw := by
  simp only [checkedPixelIm, Option.bind_eq_bind, Option.bind_eq_some_iff, word?_eq_some_iff,
    checkedOffset_eq_some_iff hspan hword hint hx] at h
  obtain ⟨_, ⟨hpart, rfl⟩, _, ⟨-, rfl⟩, hsum, rfl⟩ := h
  rw [fixedPixelOffset_eq hspan hword hint hx hpart]
  exact wrapI64_of_isI64 hsum

end Checked

theorem fixedRoundToRawSat_isI64 (frac : Nat) (x : ℚ) : isI64 (fixedRoundToRawSat frac x) := by
  rw [fixedRoundToRawSat]
  split
  · exact by decide
  next hhigh =>
  split
  · exact by decide
  next hlow =>
  rw [not_le] at hhigh hlow
  rw [llround]
  split
  · next hnonneg =>
    refine isI64_of_nonneg (Int.floor_nonneg.mpr (by linarith)) ?_
    rw [← Int.lt_add_one_iff, Int.floor_lt]
    push_cast
    linarith
  · next hneg =>
    have hmax : (0 : Int) ≤ maxI64 := by decide
    constructor
    · rw [← Int.sub_one_lt_iff, Int.lt_ceil]
      push_cast
      linarith
    · refine le_trans (Int.ceil_le.mpr ?_) hmax
      push_cast
      linarith

theorem fixedRoundToRawSat_nonneg {frac : Nat} {x : ℚ} (hx : 0 ≤ x) :
    0 ≤ fixedRoundToRawSat frac x := by
  have hscaled : 0 ≤ x * 2 ^ frac := mul_nonneg hx (by positivity)
  have hmin : (minI64 : ℚ) < 0 := by exact_mod_cast (by decide : minI64 < 0)
  rw [fixedRoundToRawSat]
  split
  · exact (by decide : 0 ≤ maxI64)
  · rw [if_neg (by linarith), llround, if_pos hscaled]
    exact Int.floor_nonneg.mpr (by linarith)

section View
variable (frac : Nat) (v : Viewport ℚ)

def centerReRaw : Int := fixedRoundToRawSat frac v.centerRe

def centerImRaw : Int := fixedRoundToRawSat frac v.centerIm

def spanReRaw : Int := fixedRoundToRawSat frac (v.scale * mapViewportAspect v)

def spanImRaw : Int := fixedRoundToRawSat frac v.scale

/-- The mapping is exact and safe. -/
structure PixelsExact : Prop where
  /-- No operation of a column leaves the words, and the result is exact. -/
  re : ∀ x < v.width, checkedPixelRe (centerReRaw frac v) (spanReRaw frac v) v.width x =
    some (centerReRaw frac v - spanReRaw frac v / 2 +
      spanReRaw frac v * (2 * x + 1) / (2 * v.width))
  im : ∀ y < v.height, checkedPixelIm (centerImRaw frac v) (spanImRaw frac v) v.height y =
    some (centerImRaw frac v + spanImRaw frac v / 2 -
      spanImRaw frac v * (2 * y + 1) / (2 * v.height))
  code_re : ∀ x < v.width, checkedPixelRe (centerReRaw frac v) (spanReRaw frac v) v.width x =
    some (fixedPixelReRaw frac v x)
  code_im : ∀ y < v.height, checkedPixelIm (centerImRaw frac v) (spanImRaw frac v) v.height y =
    some (fixedPixelImRaw frac v y)
  mono_re : ∀ x x', x ≤ x' → x' < v.width → fixedPixelReRaw frac v x ≤ fixedPixelReRaw frac v x'
  mono_im : ∀ y y', y ≤ y' → y' < v.height → fixedPixelImRaw frac v y' ≤ fixedPixelImRaw frac v y
  within_re : ∀ x < v.width, |fixedPixelReRaw frac v x - centerReRaw frac v| ≤ spanReRaw frac v / 2
  within_im : ∀ y < v.height, |fixedPixelImRaw frac v y - centerImRaw frac v| ≤ spanImRaw frac v / 2

/-- The edges that the pixels are counted from fit, the last pixels do, half a pixel before the
other edges, and the products with the remainders do. -/
structure PixelsFit : Prop where
  left : minI64 ≤ centerReRaw frac v - spanReRaw frac v / 2
  right : centerReRaw frac v + (spanReRaw frac v + 1) / 2 -
    (spanReRaw frac v + (2 * v.width - 1)) / (2 * v.width) ≤ maxI64
  columns : spanReRaw frac v % (2 * v.width) * (2 * v.width - 1) ≤ maxI64
  top : centerImRaw frac v + spanImRaw frac v / 2 ≤ maxI64
  bottom : minI64 ≤ centerImRaw frac v - (spanImRaw frac v + 1) / 2 +
    (spanImRaw frac v + (2 * v.height - 1)) / (2 * v.height)
  rows : spanImRaw frac v % (2 * v.height) * (2 * v.height - 1) ≤ maxI64

variable {frac v}

theorem representable_spans {p : FixedParams} (h : fixedViewportRepresentable frac p = true) :
    0 < p.view.width ∧ 0 < p.view.height ∧ 0 ≤ spanReRaw frac p.view ∧
      0 ≤ spanImRaw frac p.view := by
  simp only [fixedViewportRepresentable, Bool.and_eq_true, decide_eq_true_eq] at h
  obtain ⟨⟨⟨⟨⟨⟨hwidth, hheight⟩, hscale⟩, -⟩, -⟩, -⟩, -⟩ := h
  have haspect : 0 < mapViewportAspect p.view := by
    rw [mapViewportAspect]
    split
    · assumption
    · rw [if_pos ⟨hwidth, hheight⟩]
      positivity
  exact ⟨hwidth, hheight, fixedRoundToRawSat_nonneg (mul_pos hscale haspect).le,
    fixedRoundToRawSat_nonneg hscale.le⟩

theorem exactOffset_within {span : Int} {n x : Nat} (hspan : 0 ≤ span) (hx : x < n) :
    |exactOffset span n x - span / 2| ≤ span / 2 := by
  have hnonneg := exactOffset_nonneg (n := n) (x := x) hspan
  have hle := exactOffset_le hspan hx
  rw [exactOffset_last (by omega)] at hle
  rw [abs_le]
  refine ⟨by omega, ?_⟩
  by_cases hpos : span = 0
  · have hzero : 0 ≤ (span + (2 * n - 1)) / (2 * n) := Int.ediv_nonneg (by omega) (by omega)
    omega
  · have hone : 1 ≤ (span + (2 * n - 1)) / (2 * n) := by
      rw [Int.le_ediv_iff_mul_le (by omega)]
      omega
    omega

/-- The pixels of an accepted viewport are mapped exactly if and only if they fit. -/
theorem fixed_pixels_exact_iff (frac : Nat) (p : FixedParams) (hwidth : p.view.width < 2 ^ 31)
    (hheight : p.view.height < 2 ^ 31) (h : fixedViewportRepresentable frac p = true) :
    PixelsExact frac p.view ↔ PixelsFit frac p.view := by
  obtain ⟨hw, hh, hre, him⟩ := representable_spans h
  have hrew : spanReRaw frac p.view ≤ maxI64 := (fixedRoundToRawSat_isI64 _ _).2
  have himw : spanImRaw frac p.view ≤ maxI64 := (fixedRoundToRawSat_isI64 _ _).2
  have hcre : isI64 (centerReRaw frac p.view) := fixedRoundToRawSat_isI64 _ _
  have hcim : isI64 (centerImRaw frac p.view) := fixedRoundToRawSat_isI64 _ _
  have hreiff := checkedPixelRe_exact_iff hre hrew hcre hw hwidth
  have himiff := checkedPixelIm_exact_iff him himw hcim hh hheight
  constructor
  · intro hexact
    obtain ⟨hleft, hright, hcolumns⟩ := hreiff.mp hexact.re
    obtain ⟨htop, hbottom, hrows⟩ := himiff.mp hexact.im
    exact ⟨hleft, hright, hcolumns, htop, hbottom, hrows⟩
  · rintro ⟨hleft, hright, hcolumns, htop, hbottom, hrows⟩
    have hreal := hreiff.mpr ⟨hleft, hright, hcolumns⟩
    have himag := himiff.mpr ⟨htop, hbottom, hrows⟩
    have hcodere : ∀ x < p.view.width, fixedPixelReRaw frac p.view x =
        centerReRaw frac p.view - spanReRaw frac p.view / 2 +
          exactOffset (spanReRaw frac p.view) p.view.width x := fun x hx =>
      pixelRe_of_checked hre hrew hwidth hx (hreal x hx)
    have hcodeim : ∀ y < p.view.height, fixedPixelImRaw frac p.view y =
        centerImRaw frac p.view + spanImRaw frac p.view / 2 -
          exactOffset (spanImRaw frac p.view) p.view.height y := fun y hy =>
      pixelIm_of_checked him himw hheight hy (himag y hy)
    refine ⟨hreal, himag, fun x hx => ?_, fun y hy => ?_, fun x x' hle hx' => ?_,
      fun y y' hle hy' => ?_, fun x hx => ?_, fun y hy => ?_⟩
    · rw [hcodere x hx]
      exact hreal x hx
    · rw [hcodeim y hy]
      exact himag y hy
    · have hmono := exactOffset_mono (n := p.view.width) hre hw hle
      rw [hcodere x (by omega), hcodere x' hx']
      omega
    · have hmono := exactOffset_mono (n := p.view.height) him hh hle
      rw [hcodeim y (by omega), hcodeim y' hy']
      omega
    · have hwithin := exactOffset_within hre hx
      rw [abs_le] at hwithin ⊢
      rw [hcodere x hx]
      omega
    · have hwithin := exactOffset_within him hy
      rw [abs_le] at hwithin ⊢
      rw [hcodeim y hy]
      omega

/-- A square of side 2 left of -7 in Q3.60, whose left edge is beyond -8. -/
def edgeView : FixedParams where
  view := ⟨-7 - 1 / 512, 0, none, none, 2, 1, 256, 256⟩
  julia := false
  juliaRe := 0
  juliaIm := 0
  bailout := 2
  bailoutSq := 4
  iterations := 1000

/-- The viewport is accepted, and the edge that its columns are counted from is no word. -/
theorem edgeView_overflows : fixedViewportRepresentable 60 edgeView = true ∧
    ¬ PixelsExact 60 edgeView.view := by
  refine ⟨by decide +kernel, fun h => ?_⟩
  have hexact := h.re 0 (by decide)
  have hnone : checkedPixelRe (centerReRaw 60 edgeView.view) (spanReRaw 60 edgeView.view)
      edgeView.view.width 0 = none := by decide +kernel
  rw [hnone] at hexact
  cases hexact

/-- Every pixel of the view is exact. -/
theorem fixed_pixels_exact_iff_mandelbrotView : PixelsExact 60 mandelbrotView.view := by
  refine (fixed_pixels_exact_iff 60 mandelbrotView (by decide) (by decide)
    (by decide +kernel)).mpr ?_
  exact ⟨by decide +kernel, by decide +kernel, by decide +kernel, by decide +kernel,
    by decide +kernel, by decide +kernel⟩

end View

end FractalStudio.Compute
