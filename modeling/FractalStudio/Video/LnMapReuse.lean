import FractalStudio.Compute.RequestValidation

/-!
# Saved ln maps

`ln_map_reuse.hpp` and its two callers in `videoExportRoute`: the strip of an earlier run
(`lnMapRunId`) and its equalization constants (`lnMapStatsRunId`). A sidecar is any JSON value.
The hash of an orbit program is a parameter.
-/
namespace FractalStudio.Video

open Guards Json
open Compute.V1 (Stod stod resolveCenterCoord)

structure LnMapGenerationIdentity where
  bailout : ℚ
  extraOctaves : ℚ
  engineRequest : String
  scalarRequest : String
  fastFp32DepthOctaves : ℚ
  fastFp64DepthOctaves : ℚ
  fastValidate : Bool
  fastValidationBandOctaves : ℚ
  fastValidationSampleRows : Int
  fastValidationSampleCols : Int
  fastValidationMaxMismatchRatio : ℚ
  fastValidationMaxP99IterDelta : Int
  fastValidationMaxMeanColorDelta : ℚ
  deriving DecidableEq

/-- What the route knows of an export when it looks for a saved map. -/
structure ExportRequest (P : Type) where
  lnMapRunId : String
  lnMapStatsRunId : String
  centerReStr : String
  centerImStr : String
  centerRe : ℚ
  centerIm : ℚ
  julia : Bool
  juliaRe : ℚ
  juliaIm : ℚ
  variant : String
  orbitProgram : Option P
  iterations : Int
  bailoutSq : ℚ
  colorMap : String
  colorMode : String
  cyclesPerOctave : ℚ
  depthOctaves : ℚ
  precisionMode : String
  generation : LnMapGenerationIdentity
  /-- `actualWidthS`, `heightT` and `segmentCount` of the strip plan. -/
  widthS : Int
  heightT : Int
  segmentCount : Int

/-! ## Comparisons -/

/-- A number of the sidecar. -/
def number? (saved : Json) (key : String) : Option ℚ :=
  match saved.get? key with
  | some (.int n) => some (doubleOfInt n)
  | some (.float q) => some q
  | _ => none

/-- `none` is a requested number that is not finite. -/
def lnMapNumberMatches (saved : Json) (key : String) (requested : Option ℚ)
    (relTolerance : ℚ) : Bool :=
  match number? saved key, requested with
  | some actual, some requested =>
    let scale := max 1 (max |actual| |requested|)
    |actual - requested| ≤ relTolerance * scale
  | _, _ => false

def lnMapIntegerMatches (saved : Json) (key : String) (requested : Int) : Bool :=
  match saved.get? key with
  | some (.int n) => n.bmod (2 ^ 32) = requested
  | _ => false

def lnMapBoolMatches (saved : Json) (key : String) (requested : Bool) : Bool :=
  match saved.get? key with
  | some (.bool b) => b = requested
  | _ => false

def lnMapStringMatches (saved : Json) (key requested : String) : Except String Bool := do
  let actual ← saved.value asStr key ""
  return actual = requested

def lnMapCoordinateMatches (saved : Json) (numberKey stringKey requestedString : String)
    (requestedNumber : Option ℚ) : Except String Bool := do
  let savedString ← saved.value asStr stringKey ""
  if requestedString.isEmpty ≠ savedString.isEmpty then return false
  if ¬ requestedString.isEmpty then return savedString = requestedString
  return lnMapNumberMatches saved numberKey requestedNumber 0

/-- The name of the first check that fails, empty if none does. -/
def firstMismatch : List (String × Except String Bool) → Except String String
  | [] => .ok ""
  | (name, check) :: checks => do
    if ← check then firstMismatch checks else return name

section
variable {P : Type} (hash : P → String)

def ExportRequest.cr (r : ExportRequest P) : Option ℚ := resolveCenterCoord r.centerReStr r.centerRe

def ExportRequest.ci (r : ExportRequest P) : Option ℚ := resolveCenterCoord r.centerImStr r.centerIm

def identityChecks (saved : Json) (r : ExportRequest P) (colorMode : String) :
    List (String × Except String Bool) :=
  [("centerRe", lnMapCoordinateMatches saved "centerRe" "centerReStr" r.centerReStr r.cr),
   ("centerIm", lnMapCoordinateMatches saved "centerIm" "centerImStr" r.centerImStr r.ci),
   ("julia", .ok (lnMapBoolMatches saved "julia" r.julia)),
   ("juliaRe", .ok (!r.julia || lnMapNumberMatches saved "juliaRe" (some r.juliaRe) 0)),
   ("juliaIm", .ok (!r.julia || lnMapNumberMatches saved "juliaIm" (some r.juliaIm) 0)),
   ("variant", lnMapStringMatches saved "variant" r.variant),
   ("iterations", .ok (lnMapIntegerMatches saved "iterations" r.iterations)),
   ("bailoutSq", .ok (lnMapNumberMatches saved "bailoutSq" (some r.bailoutSq) 0)),
   ("colorMap", lnMapStringMatches saved "colorMap" r.colorMap),
   ("lnMapColorMode", lnMapStringMatches saved "lnMapColorMode" colorMode),
   ("lnMapCyclesPerOctave",
    .ok (lnMapNumberMatches saved "lnMapCyclesPerOctave" (some r.cyclesPerOctave) 0)),
   ("depthOctaves", .ok (lnMapNumberMatches saved "depthOctaves" (some r.depthOctaves) 0)),
   ("precisionMode", lnMapStringMatches saved "precisionMode" r.precisionMode)]

def lnMapIdentityMismatch (saved : Json) (r : ExportRequest P) (colorMode : String) :
    Except String String := firstMismatch (identityChecks saved r colorMode)

def generationChecks (saved : Json) (g : LnMapGenerationIdentity) :
    List (String × Except String Bool) :=
  [("bailout", .ok (lnMapNumberMatches saved "bailout" (some g.bailout) 0)),
   ("lnMapExtraOctaves", .ok (lnMapNumberMatches saved "lnMapExtraOctaves" (some g.extraOctaves) 0)),
   ("lnMapEngine", lnMapStringMatches saved "lnMapEngineRequest" g.engineRequest),
   ("lnMapScalar", lnMapStringMatches saved "lnMapScalarRequest" g.scalarRequest),
   ("lnMapFastFp32DepthOctaves",
    .ok (lnMapNumberMatches saved "lnMapFastFp32DepthOctaves" (some g.fastFp32DepthOctaves) 0)),
   ("lnMapFastFp64DepthOctaves",
    .ok (lnMapNumberMatches saved "lnMapFastFp64DepthOctaves" (some g.fastFp64DepthOctaves) 0)),
   ("lnMapFastValidate", .ok (lnMapBoolMatches saved "lnMapFastValidate" g.fastValidate)),
   ("lnMapFastValidationBandOctaves",
    .ok (lnMapNumberMatches saved "lnMapFastValidationBandOctaves"
      (some g.fastValidationBandOctaves) 0)),
   ("lnMapFastValidationSampleRows",
    .ok (lnMapIntegerMatches saved "lnMapFastValidationSampleRows" g.fastValidationSampleRows)),
   ("lnMapFastValidationSampleCols",
    .ok (lnMapIntegerMatches saved "lnMapFastValidationSampleCols" g.fastValidationSampleCols)),
   ("lnMapFastValidationMaxMismatchRatio",
    .ok (lnMapNumberMatches saved "lnMapFastValidationMaxMismatchRatio"
      (some g.fastValidationMaxMismatchRatio) 0)),
   ("lnMapFastValidationMaxP99IterDelta",
    .ok (lnMapIntegerMatches saved "lnMapFastValidationMaxP99IterDelta"
      g.fastValidationMaxP99IterDelta)),
   ("lnMapFastValidationMaxMeanColorDelta",
    .ok (lnMapNumberMatches saved "lnMapFastValidationMaxMeanColorDelta"
      (some g.fastValidationMaxMeanColorDelta) 0))]

def lnMapGenerationIdentityMismatch (saved : Json) (g : LnMapGenerationIdentity) :
    Except String String := firstMismatch (generationChecks saved g)

/-! ## The two ways to reuse a map -/

/-- The constants that `reconstructEqualization` is given. -/
structure EqualizationConstants where
  countMin : ℚ
  period : ℚ
  onsetCycles : ℚ
  colormapWraps : Bool
  deriving DecidableEq

def equalizationConstants (saved : Json) : Except String EqualizationConstants := do
  let countMin ← saved.value asDouble "eqCountMin" 0
  let period ← saved.value asDouble "eqPeriod" 1
  let onsetCycles ← saved.value asDouble "eqOnsetCycles" (1 / 6)
  let colormapWraps ← saved.value asBool "eqColormapWraps" false
  return ⟨countMin, period, onsetCycles, colormapWraps⟩

/-- The body of the `try` of `loadPreviewEqualizationOverride`. -/
def loadPreviewEqualization (saved : Json) (r : ExportRequest P) :
    Except String (Option EqualizationConstants) := do
  let mode ← saved.value asStr "lnMapColorMode" ""
  if mode ≠ "hist_eq" then return none
  if !saved.contains "eqCountMin" || !saved.contains "eqPeriod" then return none
  let identity ← lnMapIdentityMismatch saved r "hist_eq"
  if identity ≠ "" then return none
  let generation ← lnMapGenerationIdentityMismatch saved r.generation
  if generation ≠ "" then return none
  let constants ← equalizationConstants saved
  return some constants

def previewEqualizationOverride (saved : Json) (r : ExportRequest P) :
    Option EqualizationConstants :=
  if r.colorMode ≠ "hist_eq" then none
  else if r.lnMapStatsRunId = "" then none
  else match loadPreviewEqualization saved r with
    | .ok found => found
    | .error _ => none

/-- The checks of the route before the strip of another run is looked for. -/
def checkStripReuse (r : ExportRequest P) : Except String Unit := do
  rejectIf (r.lnMapRunId ≠ "" ∧ 1 < r.segmentCount)
    "lnMapRunId reuse is not supported for segmented ln-map exports"
  rejectIf (r.lnMapRunId ≠ "" ∧ (r.colorMode = "bands" ∨ r.colorMode = "frontier"))
    "lnMapRunId reuse is not supported for color modes that require a cached global CDF"

def checkOrbitProgram (saved : Json) (r : ExportRequest P) : Except String Unit := do
  let savedOrbitHash ← saved.value asStr "orbitProgramHash" ""
  match r.orbitProgram with
  | some program =>
    rejectIf (savedOrbitHash = "" ∨ savedOrbitHash ≠ hash program)
      ("ln-map reuse mismatch for orbitProgramHash " ++
        "(re-render the ln-map for the current Orbit Program)")
  | none =>
    rejectIf (savedOrbitHash ≠ "")
      "ln-map reuse mismatch for orbitProgramHash (the saved ln-map uses an Orbit Program)"

def checkWidth (saved : Json) (r : ExportRequest P) : Except String Unit :=
  match saved.get? "widthS" with
  | some (.int n) =>
    rejectIf (n.bmod (2 ^ 32) ≠ r.widthS)
      ("strip width mismatch: saved " ++ toString (n.bmod (2 ^ 32)) ++ " vs export " ++
        toString r.widthS)
  | _ => .error "ln-map reuse sidecar is missing widthS"

/-- What the route keeps of the sidecar of a strip. -/
structure ReusedStrip where
  scalarUsed : String
  precisionMode : String
  layerSummary : String
  validationSummary : String
  equalization : Option EqualizationConstants
  deriving DecidableEq

/-- The strip of `lnMapRunId`; `rows` is the height of its picture. -/
def reuseStrip (saved : Json) (rows : Int) (r : ExportRequest P) : Except String ReusedStrip := do
  checkStripReuse r
  let segmented ← saved.value asBool "segmented" false
  rejectIf (segmented = true) "reusing segmented ln-map runs is not supported yet"
  checkOrbitProgram hash saved r
  let identity ← lnMapIdentityMismatch saved r r.colorMode
  rejectIf (identity ≠ "") ("ln-map reuse mismatch for " ++ identity ++
    " (re-render the ln-map for the current export settings)")
  let generation ← lnMapGenerationIdentityMismatch saved r.generation
  rejectIf (generation ≠ "") ("ln-map reuse mismatch for " ++ generation ++
    " (re-render the ln-map for the current export settings)")
  checkWidth saved r
  rejectIf (1 < |rows - r.heightT|) ("strip height mismatch: saved " ++ toString rows ++
    " vs export plan " ++ toString r.heightT ++
    " (re-render the full ln-map after changing depth/extra-octaves/quality)")
  let scalarUsed ← saved.value asStr "scalar" ""
  let precisionMode ← saved.value asStr "precisionMode" ""
  let layerSummary ← saved.value asStr "layerSummary" ""
  let validationSummary ← saved.value asStr "validationSummary" ""
  if saved.contains "eqCountMin" && saved.contains "eqPeriod" then
    let constants ← equalizationConstants saved
    return ⟨scalarUsed, precisionMode, layerSummary, validationSummary, some constants⟩
  return ⟨scalarUsed, precisionMode, layerSummary, validationSummary, none⟩

/-! ## What the comparisons compare -/

variable {saved : Json} {key : String}

theorem lnMapNumberMatches_iff {requested : Option ℚ} :
    lnMapNumberMatches saved key requested 0 = true ↔
      ∃ q, requested = some q ∧ number? saved key = some q := by
  unfold lnMapNumberMatches
  cases number? saved key with
  | none => simp
  | some actual =>
    cases requested with
    | none => simp
    | some q => simp [sub_eq_zero]

theorem lnMapNumberMatches_some {q : ℚ} :
    lnMapNumberMatches saved key (some q) 0 = true ↔ number? saved key = some q := by
  rw [lnMapNumberMatches_iff]
  simp

theorem lnMapIntegerMatches_iff {requested : Int} :
    lnMapIntegerMatches saved key requested = true ↔
      ∃ n, saved.get? key = some (.int n) ∧ n.bmod (2 ^ 32) = requested := by
  unfold lnMapIntegerMatches
  split
  · next n hn => simp [hn]
  · next hno =>
    simp only [Bool.false_eq_true, false_iff, not_exists, not_and]
    intro n hn
    exact absurd hn (hno n)

theorem lnMapBoolMatches_iff {requested : Bool} :
    lnMapBoolMatches saved key requested = true ↔ saved.get? key = some (.bool requested) := by
  unfold lnMapBoolMatches
  split
  · next b hb => simp [hb]
  · next hno =>
    simp only [Bool.false_eq_true, false_iff]
    exact hno requested

theorem lnMapStringMatches_iff {requested : String} :
    lnMapStringMatches saved key requested = .ok true ↔
      saved.value asStr key "" = .ok requested := by
  rw [lnMapStringMatches, bind_eq_ok]
  constructor
  · intro ⟨actual, hactual, hsame⟩
    have heq : actual = requested := of_decide_eq_true (Except.ok.inj hsame)
    rw [hactual, heq]
  · intro h
    exact ⟨requested, h, by simp [pure, Except.pure]⟩

theorem lnMapCoordinateMatches_iff {numberKey stringKey requestedString : String}
    {requestedNumber : Option ℚ} :
    lnMapCoordinateMatches saved numberKey stringKey requestedString requestedNumber = .ok true ↔
      saved.value asStr stringKey "" = .ok requestedString ∧
        (requestedString = "" → lnMapNumberMatches saved numberKey requestedNumber 0 = true) := by
  rw [lnMapCoordinateMatches, bind_eq_ok]
  constructor
  · intro ⟨savedString, hsaved, hrest⟩
    split at hrest
    · cases hrest
    · next hempty =>
      split at hrest
      · next hgiven =>
        have heq : savedString = requestedString := of_decide_eq_true (Except.ok.inj hrest)
        refine ⟨heq ▸ hsaved, fun hno => absurd hno ?_⟩
        simpa using hgiven
      · next hnone =>
        have hrequested : requestedString = "" := by simpa using hnone
        rw [hrequested, ne_eq, Classical.not_not] at hempty
        have hboth : savedString = "" := String.isEmpty_iff.mp (hempty.symm.trans rfl)
        exact ⟨by rw [hsaved, hrequested, hboth], fun _ => Except.ok.inj hrest⟩
  · intro ⟨hsaved, hnumber⟩
    refine ⟨requestedString, hsaved, ?_⟩
    rw [if_neg fun hne => hne rfl]
    split
    · exact congrArg Except.ok (decide_eq_true rfl)
    · next hnone => exact congrArg Except.ok (hnumber (by simpa using hnone))

theorem firstMismatch_eq_empty {checks : List (String × Except String Bool)}
    (hnames : ∀ c ∈ checks, c.1 ≠ "") :
    firstMismatch checks = .ok "" ↔ ∀ c ∈ checks, c.2 = .ok true := by
  induction checks with
  | nil => simp [firstMismatch]
  | cons c checks ih =>
    obtain ⟨name, check⟩ := c
    obtain ⟨hname, hrest⟩ := List.forall_mem_cons.mp hnames
    rw [firstMismatch, List.forall_mem_cons, bind_eq_ok, ← ih hrest]
    constructor
    · intro ⟨ok, hok, h⟩
      cases ok with
      | true => exact ⟨hok, h⟩
      | false => exact absurd (Except.ok.inj h) hname
    · intro ⟨hok, h⟩
      exact ⟨true, hok, h⟩

/-! ## What a reused map was made with -/

def coordinate (text : String) (plain : Option ℚ) : Option ℚ :=
  if text = "" then plain
  else match stod text with
    | .number q => some q
    | .notFinite => none
    | .threw => plain

/-- The recorded coordinate is the requested one, digit for digit and as a number. -/
structure SameCoordinate (saved : Json) (numberKey stringKey text : String) (plain : ℚ) : Prop where
  recorded : saved.value asStr stringKey "" = .ok text
  number : coordinate text (number? saved numberKey) = coordinate text (some plain)

/-- The sidecar names the parameters of generation. -/
structure SameGeneration (saved : Json) (g : LnMapGenerationIdentity) : Prop where
  bailout : number? saved "bailout" = some g.bailout
  extraOctaves : number? saved "lnMapExtraOctaves" = some g.extraOctaves
  engineRequest : saved.value asStr "lnMapEngineRequest" "" = .ok g.engineRequest
  scalarRequest : saved.value asStr "lnMapScalarRequest" "" = .ok g.scalarRequest
  fastFp32DepthOctaves : number? saved "lnMapFastFp32DepthOctaves" = some g.fastFp32DepthOctaves
  fastFp64DepthOctaves : number? saved "lnMapFastFp64DepthOctaves" = some g.fastFp64DepthOctaves
  fastValidate : saved.get? "lnMapFastValidate" = some (.bool g.fastValidate)
  bandOctaves : number? saved "lnMapFastValidationBandOctaves" = some g.fastValidationBandOctaves
  sampleRows : saved.get? "lnMapFastValidationSampleRows" = some (.int g.fastValidationSampleRows)
  sampleCols : saved.get? "lnMapFastValidationSampleCols" = some (.int g.fastValidationSampleCols)
  maxMismatchRatio :
    number? saved "lnMapFastValidationMaxMismatchRatio" = some g.fastValidationMaxMismatchRatio
  maxP99IterDelta :
    saved.get? "lnMapFastValidationMaxP99IterDelta" = some (.int g.fastValidationMaxP99IterDelta)
  maxMeanColorDelta :
    number? saved "lnMapFastValidationMaxMeanColorDelta" = some g.fastValidationMaxMeanColorDelta

/-- The recorded orbit program is the requested one, or both have none. -/
def SameProgram (saved : Json) (r : ExportRequest P) : Prop :=
  ∃ savedOrbitHash, saved.value asStr "orbitProgramHash" "" = .ok savedOrbitHash ∧
    match r.orbitProgram with
    | some program => savedOrbitHash ≠ "" ∧ savedOrbitHash = hash program
    | none => savedOrbitHash = ""

/-- The parameters of the sidecar that determine counts and colours are the request's. -/
structure SameParameters (saved : Json) (r : ExportRequest P) : Prop where
  centerRe : SameCoordinate saved "centerRe" "centerReStr" r.centerReStr r.centerRe
  centerIm : SameCoordinate saved "centerIm" "centerImStr" r.centerImStr r.centerIm
  julia : saved.get? "julia" = some (.bool r.julia)
  juliaRe : r.julia = true → number? saved "juliaRe" = some r.juliaRe
  juliaIm : r.julia = true → number? saved "juliaIm" = some r.juliaIm
  variant : saved.value asStr "variant" "" = .ok r.variant
  orbitProgram : SameProgram hash saved r
  iterations : saved.get? "iterations" = some (.int r.iterations)
  bailoutSq : number? saved "bailoutSq" = some r.bailoutSq
  colorMap : saved.value asStr "colorMap" "" = .ok r.colorMap
  colorMode : saved.value asStr "lnMapColorMode" "" = .ok r.colorMode
  cyclesPerOctave : number? saved "lnMapCyclesPerOctave" = some r.cyclesPerOctave
  depthOctaves : number? saved "depthOctaves" = some r.depthOctaves
  precisionMode : saved.value asStr "precisionMode" "" = .ok r.precisionMode
  generation : SameGeneration saved r.generation

/-- The integers of a sidecar that are read into 32 bits. -/
def integerKeys : List String :=
  ["iterations", "lnMapFastValidationSampleRows", "lnMapFastValidationSampleCols",
    "lnMapFastValidationMaxP99IterDelta"]

/-- A text that is no number comes with the requested plain coordinate, and the integers are what
the route reads them as. -/
structure Legible (saved : Json) (r : ExportRequest P) : Prop where
  centerRe : stod r.centerReStr = .threw → number? saved "centerRe" = some r.centerRe
  centerIm : stod r.centerImStr = .threw → number? saved "centerIm" = some r.centerIm
  integers : ∀ key ∈ integerKeys, ∀ n, saved.get? key = some (.int n) → n.bmod (2 ^ 32) = n

/-! ## Reused maps -/

variable {hash} {r : ExportRequest P}

theorem sameCoordinate_iff {numberKey stringKey text : String} {plain : ℚ}
    (h : lnMapCoordinateMatches saved numberKey stringKey text
      (resolveCenterCoord text plain) = .ok true) :
    SameCoordinate saved numberKey stringKey text plain ↔
      (stod text = .threw → number? saved numberKey = some plain) := by
  obtain ⟨hrecorded, hnumber⟩ := lnMapCoordinateMatches_iff.mp h
  by_cases hempty : text = ""
  · have hsame : number? saved numberKey = some plain := by
      rw [← lnMapNumberMatches_some]
      simpa [hempty, resolveCenterCoord] using hnumber hempty
    exact iff_of_true ⟨hrecorded, congrArg (coordinate text) hsame⟩ fun _ => hsame
  · have hcoordinate : SameCoordinate saved numberKey stringKey text plain ↔
        coordinate text (number? saved numberKey) = coordinate text (some plain) :=
      ⟨fun hs => hs.number, fun hs => ⟨hrecorded, hs⟩⟩
    rw [hcoordinate]
    simp only [coordinate, if_neg hempty]
    cases stod text <;> simp

theorem integer_iff {requested : Int} (h : lnMapIntegerMatches saved key requested = true) :
    saved.get? key = some (.int requested) ↔
      ∀ n, saved.get? key = some (.int n) → n.bmod (2 ^ 32) = n := by
  obtain ⟨m, hm, hread⟩ := lnMapIntegerMatches_iff.mp h
  constructor
  · intro hsame n hn
    rw [hsame] at hn hm
    cases hn
    cases hm
    exact hread
  · intro hfits
    rw [hm, ← hread, hfits m hm]

theorem names_identityChecks (colorMode : String) :
    ∀ c ∈ identityChecks saved r colorMode, c.1 ≠ "" := by
  simp [identityChecks]

theorem names_generationChecks (g : LnMapGenerationIdentity) :
    ∀ c ∈ generationChecks saved g, c.1 ≠ "" := by
  simp [generationChecks]

/-- What the two identity checks leave open. -/
theorem sameParameters_iff (hidentity : lnMapIdentityMismatch saved r r.colorMode = .ok "")
    (hgeneration : lnMapGenerationIdentityMismatch saved r.generation = .ok "") :
    SameParameters hash saved r ↔ Legible saved r ∧ SameProgram hash saved r := by
  have hi := (firstMismatch_eq_empty (names_identityChecks r.colorMode)).mp hidentity
  have hg := (firstMismatch_eq_empty (names_generationChecks r.generation)).mp hgeneration
  simp only [identityChecks, List.forall_mem_cons, List.not_mem_nil, false_implies, implies_true,
    and_true, lnMapStringMatches_iff, Except.ok.injEq, lnMapNumberMatches_some,
    lnMapBoolMatches_iff, Bool.or_eq_true, Bool.not_eq_true'] at hi
  simp only [generationChecks, List.forall_mem_cons, List.not_mem_nil, false_implies, implies_true,
    and_true, lnMapStringMatches_iff, Except.ok.injEq, lnMapNumberMatches_some,
    lnMapBoolMatches_iff] at hg
  obtain ⟨hre, him, hjulia, hjre, hjim, hvariant, hiterations, hbailout, hmap, hmode, hcycles,
    hdepth, hprecision⟩ := hi
  obtain ⟨gbailout, gextra, gengine, gscalar, gfp32, gfp64, gvalidate, gband, grows, gcols, gratio,
    gp99, gdelta⟩ := hg
  constructor
  · intro h
    refine ⟨⟨(sameCoordinate_iff hre).mp h.centerRe, (sameCoordinate_iff him).mp h.centerIm, ?_⟩,
      h.orbitProgram⟩
    simp only [integerKeys, List.forall_mem_cons, List.not_mem_nil, false_implies, implies_true,
      and_true]
    exact ⟨(integer_iff hiterations).mp h.iterations, (integer_iff grows).mp h.generation.sampleRows,
      (integer_iff gcols).mp h.generation.sampleCols,
      (integer_iff gp99).mp h.generation.maxP99IterDelta⟩
  · rintro ⟨hlegible, hprogram⟩
    have hints := hlegible.integers
    simp only [integerKeys, List.forall_mem_cons, List.not_mem_nil, false_implies, implies_true,
      and_true] at hints
    have hgiven : ∀ {p : Prop}, r.julia = false ∨ p → r.julia = true → p := by
      intro p hor hj
      exact hor.resolve_left (by simp [hj])
    exact {
      centerRe := (sameCoordinate_iff hre).mpr hlegible.centerRe
      centerIm := (sameCoordinate_iff him).mpr hlegible.centerIm
      julia := hjulia
      juliaRe := hgiven hjre
      juliaIm := hgiven hjim
      variant := hvariant
      orbitProgram := hprogram
      iterations := (integer_iff hiterations).mpr hints.1
      bailoutSq := hbailout
      colorMap := hmap
      colorMode := hmode
      cyclesPerOctave := hcycles
      depthOctaves := hdepth
      precisionMode := hprecision
      generation := {
        bailout := gbailout
        extraOctaves := gextra
        engineRequest := gengine
        scalarRequest := gscalar
        fastFp32DepthOctaves := gfp32
        fastFp64DepthOctaves := gfp64
        fastValidate := gvalidate
        bandOctaves := gband
        sampleRows := (integer_iff grows).mpr hints.2.1
        sampleCols := (integer_iff gcols).mpr hints.2.2.1
        maxMismatchRatio := gratio
        maxP99IterDelta := (integer_iff gp99).mpr hints.2.2.2
        maxMeanColorDelta := gdelta } }

theorem sameProgram_of_check (h : checkOrbitProgram hash saved r = .ok ()) :
    SameProgram hash saved r := by
  obtain ⟨savedOrbitHash, hsaved, hrest⟩ := bind_eq_ok.mp h
  refine ⟨savedOrbitHash, hsaved, ?_⟩
  split at hrest
  · next program hprogram =>
    have hpasses := passes_rejectIf.mp ⟨_, hrest⟩
    simpa [not_or] using hpasses
  · next hprogram =>
    exact Classical.not_not.mp (passes_rejectIf.mp ⟨_, hrest⟩)

theorem reuseStrip_ok {rows : Int} {strip : ReusedStrip}
    (h : reuseStrip hash saved rows r = .ok strip) :
    checkOrbitProgram hash saved r = .ok () ∧
      lnMapIdentityMismatch saved r r.colorMode = .ok "" ∧
      lnMapGenerationIdentityMismatch saved r.generation = .ok "" := by
  obtain ⟨_, _, h⟩ := bind_eq_ok.mp h
  obtain ⟨_, _, h⟩ := bind_eq_ok.mp h
  obtain ⟨_, _, h⟩ := bind_eq_ok.mp h
  obtain ⟨_, horbit, h⟩ := bind_eq_ok.mp h
  obtain ⟨identity, hidentity, h⟩ := bind_eq_ok.mp h
  obtain ⟨_, hnoIdentity, h⟩ := bind_eq_ok.mp h
  obtain ⟨generation, hgeneration, h⟩ := bind_eq_ok.mp h
  obtain ⟨_, hnoGeneration, -⟩ := bind_eq_ok.mp h
  have hi : identity = "" := Classical.not_not.mp (passes_rejectIf.mp ⟨_, hnoIdentity⟩)
  have hg : generation = "" := Classical.not_not.mp (passes_rejectIf.mp ⟨_, hnoGeneration⟩)
  rw [hi] at hidentity
  rw [hg] at hgeneration
  exact ⟨horbit, hidentity, hgeneration⟩

theorem previewEqualizationOverride_some {constants : EqualizationConstants}
    (h : previewEqualizationOverride saved r = some constants) :
    lnMapIdentityMismatch saved r r.colorMode = .ok "" ∧
      lnMapGenerationIdentityMismatch saved r.generation = .ok "" := by
  unfold previewEqualizationOverride at h
  split at h
  · cases h
  · next hmode =>
    split at h
    · cases h
    · split at h
      · next found hfound =>
        rw [h] at hfound
        obtain ⟨mode, -, hfound⟩ := bind_eq_ok.mp hfound
        split at hfound
        · cases hfound
        · split at hfound
          · cases hfound
          · obtain ⟨identity, hidentity, hfound⟩ := bind_eq_ok.mp hfound
            split at hfound
            · cases hfound
            · next hi =>
              obtain ⟨generation, hgeneration, hfound⟩ := bind_eq_ok.mp hfound
              split at hfound
              · cases hfound
              · next hg =>
                rw [Classical.not_not.mp hi] at hidentity
                rw [Classical.not_not.mp hg] at hgeneration
                rw [Classical.not_not.mp hmode]
                exact ⟨hidentity, hgeneration⟩
      · cases h

/-- A reused strip was made with the request's parameters, and reused constants were if they were
made with its orbit program, for exactly the legible sidecars. -/
theorem reused_same_parameters (hash : P → String) (saved : Json) (r : ExportRequest P) :
    (∀ rows strip, reuseStrip hash saved rows r = .ok strip →
      (SameParameters hash saved r ↔ Legible saved r)) ∧
    (∀ constants, previewEqualizationOverride saved r = some constants →
      (SameParameters hash saved r ↔ Legible saved r ∧ SameProgram hash saved r)) := by
  constructor
  · intro rows strip h
    obtain ⟨horbit, hidentity, hgeneration⟩ := reuseStrip_ok h
    rw [sameParameters_iff hidentity hgeneration]
    exact and_iff_left (sameProgram_of_check horbit)
  · intro constants h
    obtain ⟨hidentity, hgeneration⟩ := previewEqualizationOverride_some h
    exact sameParameters_iff hidentity hgeneration

end

/-! ## A preview of an orbit program -/

def defaultGeneration : LnMapGenerationIdentity where
  bailout := 2
  extraOctaves := 7
  engineRequest := "auto"
  scalarRequest := "auto"
  fastFp32DepthOctaves := 18
  fastFp64DepthOctaves := 34
  fastValidate := true
  fastValidationBandOctaves := 4
  fastValidationSampleRows := 5
  fastValidationSampleCols := 24
  fastValidationMaxMismatchRatio := 1 / 100
  fastValidationMaxP99IterDelta := 16
  fastValidationMaxMeanColorDelta := 8

/-- An export of the Mandelbrot set with the statistics of an earlier run. -/
def builtinExport : ExportRequest String where
  lnMapRunId := ""
  lnMapStatsRunId := "20260101-000000-preview"
  centerReStr := ""
  centerImStr := ""
  centerRe := -3 / 4
  centerIm := 0
  julia := false
  juliaRe := 0
  juliaIm := 0
  variant := "mandelbrot"
  orbitProgram := none
  iterations := 2048
  bailoutSq := 4
  colorMap := "classic_cos"
  colorMode := "hist_eq"
  cyclesPerOctave := 1 / 2
  depthOctaves := 20
  precisionMode := "standard"
  generation := defaultGeneration
  widthS := 2400
  heightT := 7150
  segmentCount := 1

/-- The sidecar of a preview of an orbit program, with all other parameters those of the export. -/
def programSidecar : Json :=
  .obj [("centerRe", .float (-3 / 4)), ("centerIm", .float 0), ("centerReStr", .str ""),
    ("centerImStr", .str ""), ("julia", .bool false), ("juliaRe", .float 0), ("juliaIm", .float 0),
    ("depthOctaves", .float 20), ("variant", .str "mandelbrot"), ("colorMap", .str "classic_cos"),
    ("iterations", .int 2048), ("lnMapColorMode", .str "hist_eq"),
    ("lnMapCyclesPerOctave", .float (1 / 2)), ("bailoutSq", .float 4),
    ("precisionMode", .str "standard"), ("orbitProgramHash", .str "5a1f"), ("bailout", .float 2),
    ("lnMapExtraOctaves", .float 7), ("lnMapEngineRequest", .str "auto"),
    ("lnMapScalarRequest", .str "auto"), ("lnMapFastFp32DepthOctaves", .float 18),
    ("lnMapFastFp64DepthOctaves", .float 34), ("lnMapFastValidate", .bool true),
    ("lnMapFastValidationBandOctaves", .float 4), ("lnMapFastValidationSampleRows", .int 5),
    ("lnMapFastValidationSampleCols", .int 24),
    ("lnMapFastValidationMaxMismatchRatio", .float (1 / 100)),
    ("lnMapFastValidationMaxP99IterDelta", .int 16),
    ("lnMapFastValidationMaxMeanColorDelta", .float 8), ("eqCountMin", .float 3),
    ("eqPeriod", .float 40), ("eqOnsetCycles", .float (1 / 6)), ("eqColormapWraps", .bool true)]

theorem programSidecar_reused :
    previewEqualizationOverride programSidecar builtinExport = some ⟨3, 40, 1 / 6, true⟩ := by
  decide +kernel

/-- The Mandelbrot set is coloured with the statistics of an orbit program. -/
theorem program_statistics_reused :
    ¬ ∀ (hash : String → String) (saved : Json) (r : ExportRequest String),
      (∀ rows strip, reuseStrip hash saved rows r = .ok strip → SameParameters hash saved r) ∧
      (∀ constants, previewEqualizationOverride saved r = some constants →
        SameParameters hash saved r) := by
  intro h
  have hsame := (h id programSidecar builtinExport).2 _ programSidecar_reused
  obtain ⟨savedOrbitHash, hsaved, hnone⟩ := hsame.orbitProgram
  have hempty : savedOrbitHash = "" := hnone
  rw [hempty] at hsaved
  simp [programSidecar, Json.value, Json.get?, Json.asStr] at hsaved

end FractalStudio.Video
