import FractalStudio.Lib.Spans
import FractalStudio.LnMap.Params

/-!
# The bands of the fast mode

`make_fast_bands`: rows near the top of a strip are planned in single precision, deeper ones in
double and fixed precision. A validation may promote a piece of a band; whatever it says, the bands
follow each other from the first row to the last.
-/
noncomputable section
namespace FractalStudio.LnMap

open Spans

inductive LnPlanScalar
  | fp32 | fp64 | fx64
deriving DecidableEq

structure LnRenderBand where
  start : ℕ
  stop : ℕ
  scalar : LnPlanScalar
deriving DecidableEq

/-- `validate_ln_band(p, row0, row1, candidate, reference).pass` -/
abbrev Validation := ℕ → ℕ → LnPlanScalar → LnPlanScalar → Bool

/-- The last band, if it ends where the new one starts and has its scalar, and the ones before. -/
def appendBand (bands : List LnRenderBand) (start stop : ℕ) (scalar : LnPlanScalar) :
    List LnRenderBand :=
  if stop ≤ start then bands
  else match bands.getLast? with
    | some last =>
      if last.stop = start ∧ last.scalar = scalar then
        bands.dropLast ++ [{ last with stop := stop }]
      else bands ++ [⟨start, stop, scalar⟩]
    | none => bands ++ [⟨start, stop, scalar⟩]

variable {C : Type}

namespace LnMapParams

section Plan
variable (p : LnMapParams C) (validates : Validation) (reference : LnPlanScalar)

/-- The scalar that a piece of a band gets. -/
def selectScalar (row0 row1 : ℕ) (candidate : LnPlanScalar) : LnPlanScalar :=
  if p.fastValidate ∧ candidate ≠ reference ∧ ¬ validates row0 row1 candidate reference then
    let selected := if candidate = .fp32 then .fp64 else reference
    if selected ≠ reference ∧ reference = .fx64 ∧ ¬ validates row0 row1 selected reference then
      .fx64
    else selected
  else candidate

def validationRows : ℕ := max 1 (p.rowsForDepthOctaves p.fastValidationBandOctaves)

def addSegment (start stop : ℕ) (candidate : LnPlanScalar) (bands : List LnRenderBand) :
    List LnRenderBand :=
  (chop p.validationRows start stop).foldl
    (fun bands piece => appendBand bands piece.1 piece.2
      (p.selectScalar validates reference piece.1 piece.2 candidate)) bands

def makeFastBands (fp32End fp64End : ℕ) (useDeepFx64 : Bool) : List LnRenderBand :=
  p.addSegment validates reference fp64End p.heightT (if useDeepFx64 then .fx64 else .fp64)
    (p.addSegment validates reference fp32End fp64End .fp64
      (p.addSegment validates reference 0 fp32End .fp32 []))

end Plan

/-- The first row that is not planned in single precision, and the first in fixed precision. -/
def bandEnds (p : LnMapParams C) (cudaFast cpuFp32Available : Bool) : ℕ × ℕ :=
  let fp32End := p.rowsForDepthOctaves p.fastFp32DepthOctaves
  let fp64End := max fp32End (p.rowsForDepthOctaves p.fastFp64DepthOctaves)
  let fp32End := if !cudaFast && !cpuFp32Available then 0 else fp32End
  let fp64End := if !((cudaFast && p.scalarType ≠ .fp64) || p.scalarIsFx64) then p.heightT
    else fp64End
  let fp32End := min fp32End p.heightT
  (fp32End, max fp32End (min fp64End p.heightT))

def fastBands (p : LnMapParams C) (validates : Validation) (cudaFast cpuFp32Available : Bool) :
    List LnRenderBand :=
  p.makeFastBands validates (if p.scalarIsFx64 then .fx64 else .fp64)
    (p.bandEnds cudaFast cpuFp32Available).1 (p.bandEnds cudaFast cpuFp32Available).2
    ((cudaFast && p.scalarType ≠ .fp64) || p.scalarIsFx64)

end LnMapParams

/-! ## The rows of the bands -/

def LnRenderBand.rows (band : LnRenderBand) : ℕ × ℕ := (band.start, band.stop)

/-- The bands follow each other from one row to another. -/
def BandsTile (first last : ℕ) (bands : List LnRenderBand) : Prop :=
  Tiles first last (bands.map LnRenderBand.rows)

theorem appendBand_tile {first start stop : ℕ} {bands : List LnRenderBand}
    (h : BandsTile first start bands) (hlt : start < stop) (scalar : LnPlanScalar) :
    BandsTile first stop (appendBand bands start stop scalar) := by
  have hnew : BandsTile first stop (bands ++ [⟨start, stop, scalar⟩]) := by
    rw [BandsTile, List.map_append]
    exact h.append (.single hlt)
  rw [appendBand, if_neg (Nat.not_le.mpr hlt)]
  split
  · next last hlast =>
    split
    · next hsame =>
      -- the last band takes the new rows
      have hbands : bands = bands.dropLast ++ [last] :=
        (List.dropLast_append_getLast? last hlast).symm
      have hlast : List.map LnRenderBand.rows [last] = [(last.start, start)] := by
        rw [← hsame.1]
        rfl
      rw [BandsTile, hbands, List.map_append, hlast] at h
      rw [BandsTile, List.map_append]
      exact h.grow hlt
    · exact hnew
  · exact hnew

namespace LnMapParams

variable {p : LnMapParams C} {validates : Validation} {reference : LnPlanScalar}

theorem foldl_tile {first start stop : ℕ} {pieces : List (ℕ × ℕ)}
    {scalar : ℕ × ℕ → LnPlanScalar} {bands : List LnRenderBand} (h : BandsTile first start bands)
    (hpieces : Tiles start stop pieces) :
    BandsTile first stop
      (pieces.foldl (fun bands piece => appendBand bands piece.1 piece.2 (scalar piece)) bands) := by
  induction hpieces generalizing bands with
  | nil start => exact h
  | cons hlt _ ih => exact ih (appendBand_tile h hlt _)

theorem addSegment_tile {first start stop : ℕ} {bands : List LnRenderBand}
    (h : BandsTile first start bands) (hle : start ≤ stop) (candidate : LnPlanScalar) :
    BandsTile first stop (p.addSegment validates reference start stop candidate bands) := by
  have hrows : 0 < p.validationRows := Nat.lt_of_lt_of_le Nat.zero_lt_one (Nat.le_max_left _ _)
  exact foldl_tile h (tiles_chop hrows hle)

theorem makeFastBands_tile {fp32End fp64End : ℕ} (h32 : fp32End ≤ fp64End)
    (h64 : fp64End ≤ p.heightT) (useDeepFx64 : Bool) :
    BandsTile 0 p.heightT
      (p.makeFastBands validates reference fp32End fp64End useDeepFx64) := by
  have hstart : BandsTile 0 0 [] := .nil 0
  exact addSegment_tile (addSegment_tile (addSegment_tile hstart (Nat.zero_le _) _) h32 _) h64 _

theorem fastBands_tile (cudaFast cpuFp32Available : Bool) :
    BandsTile 0 p.heightT (p.fastBands validates cudaFast cpuFp32Available) := by
  apply makeFastBands_tile
  · exact Nat.le_max_left _ _
  · exact Nat.max_le.mpr ⟨Nat.min_le_right _ _, Nat.min_le_right _ _⟩

end LnMapParams

end FractalStudio.LnMap

end
