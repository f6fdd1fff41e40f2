import FractalStudio.LnMap.StripStatistics

/-!
# The colours of a strip

The colouring of `render_ln_map_mapped` and of the escape mode: what a colour mode makes of the
escape counts of a strip, with tables of its own or with tables that it is given.
-/
noncomputable section
namespace FractalStudio.LnMap

open ClaimPool Video

/-! ## Quantiles of a count -/

/-- `raw_q_for_iter`, and `rawQ` of the final frame. -/
def rawQ (iterations it : ℕ) : ℝ := clamp ((it + 1) / (iterations + 1)) 0 1

structure CountTable where
  hist : List ℕ
  total : ℕ
  firstHistIter : ℕ

def CountTable.ofCounts (iterations : ℕ) (counts : ℕ → ℕ) : CountTable :=
  let hist := (List.range iterations).map counts
  ⟨cumulativeFrom 0 hist, hist.sum, (hist.findIdx? fun count => 0 < count).getD iterations⟩

def CountTable.ofCdf (cdf : LnMapGlobalCdf) : CountTable := ⟨cdf.cumulative, cdf.total, cdf.firstIter⟩

/-- What a strip hands on of its table. -/
def CountTable.cdf (iterations : ℕ) (t : CountTable) : LnMapGlobalCdf :=
  ⟨t.hist, t.total, if t.firstHistIter = iterations then 0 else t.firstHistIter⟩

def CountTable.globalQ (t : CountTable) (iterations it : ℕ) : ℝ :=
  if 0 < t.total ∧ it < iterations ∧ t.hist ≠ [] then
    let q := clamp ((t.hist.getD it 0 : ℕ) / (t.total : ℕ)) 0 1
    if q ≤ 0 ∧ t.firstHistIter < iterations ∧ it < t.firstHistIter then
      let denom := max (1 / 10 ^ 12) (rawQ iterations t.firstHistIter)
      10 / 100 * clamp (rawQ iterations it / denom) 0 1
    else 10 / 100 + 90 / 100 * q
  else rawQ iterations it

theorem cumulativeFrom_length (before : ℕ) (counts : List ℕ) :
    (cumulativeFrom before counts).length = counts.length := by
  induction counts generalizing before with
  | nil => rfl
  | cons count counts ih => exact congrArg (· + 1) (ih _)

namespace CountTable

def EndsInTotal (t : CountTable) (iterations : ℕ) : Prop :=
  t.hist.length = iterations ∧ t.hist.getLast?.getD 0 = t.total

theorem EndsInTotal.getD {t : CountTable} {iterations : ℕ} (h : t.EndsInTotal iterations) :
    t.hist.getD (iterations - 1) 0 = t.total := by
  rw [← h.2, ← h.1, List.getLast?_eq_getElem?, List.getD_eq_getElem?_getD]

theorem ofCounts_endsInTotal (iterations : ℕ) (counts : ℕ → ℕ) :
    (ofCounts iterations counts).EndsInTotal iterations := by
  constructor
  · show (cumulativeFrom 0 _).length = iterations
    rw [cumulativeFrom_length, List.length_map, List.length_range]
  · exact (cumulativeFrom_last 0 _).trans (zero_add _)

theorem ofCounts_total_eq_zero {iterations : ℕ} {counts : ℕ → ℕ} :
    (ofCounts iterations counts).total = 0 ↔ ∀ i < iterations, counts i = 0 := by
  show ((List.range iterations).map counts).sum = 0 ↔ _
  rw [List.sum_eq_zero_iff]
  constructor
  · exact fun h i hi => h _ (List.mem_map_of_mem (List.mem_range.mpr hi))
  · intro h c hc
    obtain ⟨i, hi, rfl⟩ := List.mem_map.mp hc
    exact h i (List.mem_range.mp hi)

theorem ofCounts_first {iterations : ℕ} {counts : ℕ → ℕ}
    (h : (ofCounts iterations counts).total ≠ 0) :
    (ofCounts iterations counts).firstHistIter < iterations := by
  show ((List.map counts (List.range iterations)).findIdx? _).getD iterations < iterations
  cases hfind : (List.map counts (List.range iterations)).findIdx? fun count => 0 < count with
  | none =>
    refine absurd (ofCounts_total_eq_zero.mpr fun i hi => ?_) h
    have hzero := List.findIdx?_eq_none_iff.mp hfind _
      (List.mem_map_of_mem (f := counts) (List.mem_range.mpr hi))
    have hnot : ¬ 0 < counts i := of_decide_eq_false hzero
    omega
  | some i =>
    obtain ⟨hlt, -⟩ := List.findIdx?_eq_some_iff_findIdx_eq.mp hfind
    rwa [List.length_map, List.length_range] at hlt

end CountTable

def rankQ (iterations : ℕ) (row : List ℕ) (it : ℕ) : ℝ :=
  let rowIters := row.filter fun i => i < iterations
  if rowIters ≠ [] ∧ it < iterations then
    clamp ((rowIters.filter fun i => i ≤ it).length / rowIters.length) 0 1
  else rawQ iterations it

/-- A logarithm that is lifted by a constant. -/
def logQ (lift raw : ℝ) : ℝ := Real.log (1 + lift * raw) / Real.log (1 + lift)

theorem rawQ_bounds (iterations it : ℕ) : 0 ≤ rawQ iterations it ∧ rawQ iterations it ≤ 1 :=
  ⟨le_max_left _ _, max_le zero_le_one (min_le_right _ _)⟩

theorem rawQ_eq {iterations it : ℕ} (h : it ≤ iterations) :
    rawQ iterations it = (it + 1) / (iterations + 1) := by
  have hle : (it : ℝ) ≤ iterations := by exact_mod_cast h
  have hpos : (0 : ℝ) < iterations + 1 := by positivity
  rw [rawQ, clamp, min_eq_left, max_eq_right]
  · positivity
  · rw [div_le_one hpos]
    linarith

theorem CountTable.globalQ_last {t : CountTable} {iterations it : ℕ} (htotal : 0 < t.total)
    (hit : it < iterations) (hlast : t.hist.getD it 0 = t.total) : t.globalQ iterations it = 1 := by
  have hne : t.hist ≠ [] := by
    rintro hnil
    rw [hnil] at hlast
    simp only [List.getD_nil] at hlast
    omega
  have hone : clamp ((t.hist.getD it 0 : ℕ) / (t.total : ℕ)) 0 1 = 1 := by
    have hpos : (t.total : ℝ) ≠ 0 := by exact_mod_cast htotal.ne'
    rw [hlast, div_self hpos, clamp, min_self]
    exact max_eq_right zero_le_one
  rw [globalQ, if_pos ⟨htotal, hit, hne⟩]
  simp only [hone]
  rw [if_neg fun h => absurd h.1 (by norm_num)]
  norm_num

theorem CountTable.globalQ_empty {t : CountTable} (h : t.total = 0) (iterations it : ℕ) :
    t.globalQ iterations it = rawQ iterations it :=
  if_neg fun hpos => absurd hpos.1 (by omega)

/-- The bands of a count, with `base` the quantile of the strip. -/
def bandsValue (base raw depth01 : ℝ) : ℝ :=
  let broad := 1 / 2 + 1 / 2 * Real.sin (tau * (base * 18 + depth01 * (72 / 100)))
  let fine := 1 / 2 + 1 / 2 * Real.sin (tau * (Real.sqrt raw * 72 + depth01 * (19 / 100)))
  clamp (70 / 100 * base + 22 / 100 * broad + 8 / 100 * fine) 0 1

theorem bandsValue_bounds {base : ℝ} (hbase : 0 ≤ base ∧ base ≤ 1) (raw depth01 : ℝ) :
    70 / 100 * base ≤ bandsValue base raw depth01 ∧
      bandsValue base raw depth01 ≤ 70 / 100 * base + 30 / 100 := by
  have hbroad := Real.sin_le_one (tau * (base * 18 + depth01 * (72 / 100)))
  have hbroad' := Real.neg_one_le_sin (tau * (base * 18 + depth01 * (72 / 100)))
  have hfine := Real.sin_le_one (tau * (Real.sqrt raw * 72 + depth01 * (19 / 100)))
  have hfine' := Real.neg_one_le_sin (tau * (Real.sqrt raw * 72 + depth01 * (19 / 100)))
  simp only [bandsValue, clamp]
  rw [min_eq_left (by linarith), max_eq_right (by linarith)]
  constructor <;> linarith

/-- The gradient of the quantiles at a pixel. -/
def edgeOf (qAt : ℤ → ℤ → ℝ) (row col : ℤ) : ℝ :=
  let dx := qAt row (col + 1) - qAt row (col - 1)
  let dy := qAt (row + 1) col - qAt (row - 1) col
  clamp (Real.sqrt (dx * dx + dy * dy) * 5) 0 1

/-- A colour that is lifted towards white. -/
def Bgr.lift (color : Bgr) (lift : ℝ) : Bgr where
  b := clamp255 (truncate (color.b * (1 - lift) + 255 * lift))
  g := clamp255 (truncate (color.g * (1 - lift) + 255 * lift))
  r := clamp255 (truncate (color.r * (1 - lift) + 255 * lift))

def LnMapEqualization.colorize (eq : LnMapEqualization) (it : ℕ) : Bgr :=
  let phase := max 0 ((it - eq.countMin) / eq.period)
  if phase < eq.onsetCycles then
    let v := clamp (phase / eq.onsetCycles) 0 1
    let v := v * v * (3 - 2 * v)
    let start := colorizeFieldBgr 0 eq.colormap
    ⟨clamp255 (lround (start.b * v)), clamp255 (lround (start.g * v)),
      clamp255 (lround (start.r * v))⟩
  else
    let wheel := phase - eq.onsetCycles
    let f := wheel - ⌊wheel⌋
    colorizeFieldBgr (if eq.colormapWraps then f else 1 - |2 * f - 1|) eq.colormap

variable {C : Type}

namespace LnMapParams
variable (p : LnMapParams C)

section Tables
variable (iters : ℕ → ℕ → ℕ)

/-- The equalizations that a strip can be drawn with, one for each schedule of its workers. -/
def equalizations (threads : ℕ) : Set LnMapEqualization :=
  if p.colorMode = .histEq then
    match p.equalizationOverride with
    | some eq => if eq.valid then {eq} else p.buildEqualization iters threads
    | none => p.buildEqualization iters threads
  else {{}}

def needsGlobalCdf : Prop := p.colorMode = .bands ∨ p.colorMode = .frontier

instance : Decidable p.needsGlobalCdf := inferInstanceAs (Decidable (_ ∨ _))

/-- The CDF that is given to a strip, where it is used. -/
def externalCdf : Option LnMapGlobalCdf :=
  p.globalCdfOverride.filter fun cdf => cdf.valid ∧ cdf.cumulative.length = p.iterations

/-- How often a count occurs in the disk. -/
def diskCount (it : ℕ) : ℕ :=
  ((p.countedPixels iters fun row col => p.OnDisk row col).filter fun px =>
    it = iters px.1 px.2).card

def countTable : CountTable :=
  if p.needsGlobalCdf then
    match p.externalCdf with
    | some cdf => .ofCdf cdf
    | none => .ofCounts p.iterations (p.diskCount iters)
  else ⟨[], 0, p.iterations⟩

end Tables

/-! ## The colour of a pixel -/

/-- How deep a row lies in the strip. -/
def depth01 (row : ℕ) : ℝ := clamp (row / max 1 ((p.heightT : ℝ) - 1)) 0 1

def phased (mapped phase : ℝ) : Bgr :=
  colorizeFieldBgr (applyDepthPhase mapped phase p.colormap) p.colormap

section Pixel
variable (table : CountTable) (iters : ℕ → ℕ → ℕ) (row col : ℕ)

def rowQ (it : ℕ) : ℝ := rankQ p.iterations ((List.range p.widthS).map (iters row)) it

/-- `q_at`: rows end at the edges of the strip, columns go round. -/
def qAt (row col : ℤ) : ℝ :=
  let row := max 0 (min row (p.heightT - 1))
  let col := if col < 0 then col + p.widthS else if p.widthS ≤ col then col - p.widthS else col
  let it := iters row.toNat col.toNat
  if p.iterations ≤ it then 1 else table.globalQ p.iterations it

def edge : ℝ := edgeOf (fun r c => p.qAt table iters r c) row col

/-- The colour of a pixel that escapes. -/
def escapedColor (eq : LnMapEqualization) : Bgr :=
  let it := iters row col
  let depth01 := p.depth01 row
  match p.colorMode with
  | .escape => colorizeEscapeBgr it p.iterations p.colormap
  | .logLift =>
    p.phased (logQ 64 (rawQ p.iterations it) * (82 / 100 + 18 / 100 * depth01))
      (15 / 100 * depth01)
  | .rowEq => p.phased (p.rowQ iters row it * (86 / 100 + 14 / 100 * depth01)) (12 / 100 * depth01)
  | .bands =>
    p.phased (bandsValue (table.globalQ p.iterations it) (rawQ p.iterations it) depth01)
      (8 / 100 * depth01)
  | .frontier =>
    let edge := p.edge table iters row col
    let base := table.globalQ p.iterations it
    (p.phased (clamp (76 / 100 * base + 24 / 100 * edge) 0 1) (10 / 100 * depth01)).lift
      (34 / 100 * edge)
  | .histEq =>
    if eq.valid then eq.colorize it else colorizeFieldBgr (rawQ p.iterations it) p.colormap

def pixelColor (eq : LnMapEqualization) : Bgr :=
  if p.iterations ≤ iters row col then white else p.escapedColor table iters row col eq

end Pixel

variable {p}

theorem depth01_first : p.depth01 0 = 0 := by
  rw [depth01, Nat.cast_zero, zero_div, clamp, min_eq_left zero_le_one, max_self]

theorem depth01_last (h : 2 ≤ p.heightT) {row : ℕ} (hrow : row + 1 = p.heightT) :
    p.depth01 row = 1 := by
  have hcast : (p.heightT : ℝ) = row + 1 := by exact_mod_cast hrow.symm
  have hpos : (1 : ℝ) ≤ row := by exact_mod_cast (by omega : 1 ≤ row)
  rw [depth01, hcast, add_sub_cancel_right, max_eq_right hpos, div_self (by linarith), clamp,
    min_self]
  exact max_eq_right zero_le_one

theorem phased_grayscale (hcolormap : p.colormap = .grayscale) {v : ℝ} (hv : 0 ≤ v ∧ v ≤ 1)
    (phase : ℝ) : p.phased v phase = gray ⌊v * 255⌋ := by
  rw [phased, hcolormap, applyDepthPhase_grayscale hv, colorizeFieldBgr_grayscale hv]

variable (p)

/-- The pictures that `render_ln_map` can draw of a field, one for each schedule of the workers that
make its equalization. -/
def pictures (iters : ℕ → ℕ → ℕ) (threads : ℕ) : Set (ℕ → ℕ → Bgr) :=
  {picture | ∃ eq ∈ p.equalizations iters threads, picture = fun row col =>
    p.pixelColor (p.countTable iters) iters row col eq}

end LnMapParams

end FractalStudio.LnMap

end
