import FractalStudio.Compute.RequestValidation
import FractalStudio.Studio.Recipe

/-!
# What a node reads of a recipe

The parts of an accepted recipe that the node has readers of its own for: a centre as a decimal
text, the colours of a gradient, and the envelope with its key.
-/
namespace FractalStudio.Recipe

open FractalStudio.Guards FractalStudio.Compute FractalStudio.Compute.V1

variable {D : DigitClass}

/-! ## Colours -/

theorem hexDigit_isSome {c : Char} (h : isHexDigit c = true) : ∃ d, hexDigit c = some d := by
  have hdigit : c.isDigit = true ↔ '0' ≤ c ∧ c ≤ '9' := by
    simp [Char.isDigit, Char.le_def]
  simp only [isHexDigit, Bool.or_eq_true, Bool.and_eq_true, decide_eq_true_eq, hdigit] at h
  by_cases h₀ : '0' ≤ c ∧ c ≤ '9'
  · exact ⟨_, if_pos h₀⟩
  · by_cases h₁ : 'a' ≤ c ∧ c ≤ 'f'
    · exact ⟨_, by rw [hexDigit, if_neg h₀, if_pos h₁]⟩
    · have h₂ : 'A' ≤ c ∧ c ≤ 'F' := by tauto
      exact ⟨_, by rw [hexDigit, if_neg h₀, if_neg h₁, if_pos h₂]⟩

theorem parseColor_ok {s : String} (h : matchesColor s = true) (field : String) :
    ∃ color, parseColor (.str s) field = .ok color := by
  rw [matchesColor] at h
  split at h
  · next cs hcs =>
    simp only [Bool.and_eq_true, decide_eq_true_eq, List.all_eq_true] at h
    obtain ⟨hlength, hdigits⟩ := h
    match cs, hlength with
    | [r₁, r₀, g₁, g₀, b₁, b₀], _ =>
      obtain ⟨x₁, hx₁⟩ := hexDigit_isSome (hdigits r₁ (by simp))
      obtain ⟨x₀, hx₀⟩ := hexDigit_isSome (hdigits r₀ (by simp))
      obtain ⟨y₁, hy₁⟩ := hexDigit_isSome (hdigits g₁ (by simp))
      obtain ⟨y₀, hy₀⟩ := hexDigit_isSome (hdigits g₀ (by simp))
      obtain ⟨z₁, hz₁⟩ := hexDigit_isSome (hdigits b₁ (by simp))
      obtain ⟨z₀, hz₀⟩ := hexDigit_isSome (hdigits b₀ (by simp))
      refine ⟨⟨x₁ * 16 + x₀, y₁ * 16 + y₀, z₁ * 16 + z₀⟩, ?_⟩
      simp only [parseColor, hcs, List.map_cons, List.map_nil, hx₁, hx₀, hy₁, hy₀, hz₁, hz₀]
  · cases h

theorem passes_unknownFields {entries : List (String × Option Json)} {allowed : List String}
    {objectName : String} (h : ∀ e ∈ entries, e.1 ∈ allowed) :
    Passes (rejectUnknownFields (.ofEntries entries) allowed objectName) := by
  rw [Json.ofEntries, rejectUnknownFields]
  apply passes_forM.mpr
  intro e he
  obtain ⟨entry, hentry, hvalue⟩ := List.mem_filterMap.mp he
  obtain ⟨v, _, rfl⟩ := Option.map_eq_some_iff.mp hvalue
  exact passes_rejectIf.mpr (not_not.mpr (h entry hentry))

theorem parseStop_dump {previous : ℚ} {stop : GradientStop} (h : previous < stop.at') :
    ∃ color, parseStop previous stop.dump = .ok ⟨stop.at', color⟩ := by
  have hobj : ¬ (stop.dump.isObj = false) := Bool.noConfusion
  obtain ⟨u, hunknown⟩ : Passes (rejectUnknownFields stop.dump ["at", "color"] "color stop") := by
    apply passes_unknownFields
    simp
  obtain ⟨color, hcolor⟩ := parseColor_ok stop.color_pattern "color stop color"
  have hposition : (stop.dump.get? "at").map Json.asDouble = some (.ok stop.at') := by
    simp [GradientStop.dump, Json.asDouble]
  have htext : stop.dump.get? "color" = some (.str stop.color) := by
    simp [GradientStop.dump]
  have hbounds : ¬ (stop.at' < 0 ∨ 1 < stop.at' ∨ stop.at' ≤ previous) := by
    simp only [not_or, not_lt, not_le]
    exact ⟨stop.at_bounds.1, stop.at_bounds.2, h⟩
  refine ⟨color, ?_⟩
  rw [parseStop, bind_rejectIf hobj, bind_of_ok hunknown]
  simp only [hposition, htext]
  rw [bind_rejectIf hbounds, bind_of_ok hcolor]
  rfl

theorem parseStops_dump {previous : ℚ} {stops : List GradientStop}
    (h : (previous :: stops.map GradientStop.at').IsChain (· < ·)) :
    ∃ parsed, parseStops previous (stops.map GradientStop.dump) = .ok parsed ∧
      parsed.map ProgramColorStop.at' = stops.map GradientStop.at' := by
  induction stops generalizing previous with
  | nil => exact ⟨[], rfl, rfl⟩
  | cons stop stops ih =>
    rw [List.map_cons, List.isChain_cons_cons] at h
    obtain ⟨color, hcolor⟩ := parseStop_dump h.1
    obtain ⟨parsed, hparsed, hpositions⟩ := ih h.2
    refine ⟨⟨stop.at', color⟩ :: parsed, ?_, ?_⟩
    · rw [List.map_cons, parseStops, bind_of_ok hcolor, bind_of_ok hparsed]
      rfl
    · rw [List.map_cons, List.map_cons, hpositions]

theorem colorField_ok {v : Json} {field s : String} (hget : v.get? field = some (.str s))
    (h : matchesColor s = true) (default : ProgramColor) :
    ∃ color, colorField v field default = .ok color := by
  rw [colorField, hget]
  exact parseColor_ok h _

theorem stopEntries_dump (p : ColorProgram) :
    stopEntries p.dump = .ok (p.stops.map GradientStop.dump) := by
  have hget : p.dump.get? "stops" = some (.arr (p.stops.map GradientStop.dump)) := by
    simp [ColorProgram.dump]
  have hlength : ¬ ((p.stops.map GradientStop.dump).length < 2 ∨
      16 < (p.stops.map GradientStop.dump).length) := by
    have h := p.stops_length
    rw [List.length_map]
    omega
  rw [stopEntries, hget]
  exact if_neg hlength

theorem stops_isChain (p : ColorProgram) :
    (-1 :: p.stops.map GradientStop.at').IsChain (· < ·) := by
  have hincreasing := p.stops_increasing
  cases hstops : p.stops with
  | nil => exact List.isChain_singleton _
  | cons stop stops =>
    rw [hstops, List.map_cons] at hincreasing
    have hpos := stop.at_bounds.1
    rw [List.map_cons, List.isChain_cons_cons]
    exact ⟨by linarith, hincreasing⟩

theorem passes_parseColorProgramJson (p : ColorProgram) :
    Passes (parseColorProgramJson p.dump) := by
  have hobj : ¬ (p.dump.isObj = false) := Bool.noConfusion
  obtain ⟨u, hunknown⟩ : Passes (rejectUnknownFields p.dump
      ["schemaVersion", "type", "interpolation", "wrap", "cycles", "phase", "interiorColor",
        "invalidColor", "stops"] "colorProgram") := by
    apply passes_unknownFields
    simp
  have hversion : p.dump.get? "schemaVersion" = some (.int 1) := by simp [ColorProgram.dump]
  have htype : p.dump.get? "type" = some (.str "gradient") := by simp [ColorProgram.dump]
  have hinterpolation : p.dump.get? "interpolation" = some (.str "rgb") := by
    simp [ColorProgram.dump]
  have hwrap : p.dump.get? "wrap" = some (.str p.wrap.text) := by simp [ColorProgram.dump]
  have hcycles : p.dump.get? "cycles" = some (.float p.cycles) := by simp [ColorProgram.dump]
  have hphase : p.dump.get? "phase" = some (.float p.phase) := by simp [ColorProgram.dump]
  have hinterior : p.dump.get? "interiorColor" = some (.str p.interiorColor) := by
    simp [ColorProgram.dump]
  have hinvalid : p.dump.get? "invalidColor" = some (.str p.invalidColor) := by
    simp [ColorProgram.dump]
  have hone : ¬ ((1 : Int) ≠ 1) := not_not.mpr rfl
  obtain ⟨wrap, hparsedWrap⟩ : ∃ wrap, parseWrap p.wrap.text = .ok wrap := by
    cases p.wrap
    · exact ⟨_, rfl⟩
    · exact ⟨_, rfl⟩
    · exact ⟨_, rfl⟩
  have hbounds : ¬ (p.cycles ≤ 0 ∨ 256 < p.cycles) := by
    simp only [not_or, not_le, not_lt]
    exact p.cycles_bounds
  obtain ⟨interior, hreadInterior⟩ := colorField_ok hinterior p.interiorColor_pattern ⟨255, 255, 255⟩
  obtain ⟨invalid, hreadInvalid⟩ := colorField_ok hinvalid p.invalidColor_pattern ⟨255, 0, 255⟩
  obtain ⟨stops, hstops, hpositions⟩ := parseStops_dump (stops_isChain p)
  have hends : ¬ (stops.head?.map ProgramColorStop.at' ≠ some 0 ∨
      stops.getLast?.map ProgramColorStop.at' ≠ some 1) := by
    rw [← List.head?_map, ← List.getLast?_map, hpositions, List.head?_map, List.getLast?_map,
      p.stops_ends.1, p.stops_ends.2]
    tauto
  rw [parseColorProgramJson, bind_rejectIf hobj, bind_of_ok hunknown,
    bind_of_ok (Json.value_asInt hversion (by decide) (by decide) (by decide) 0),
    bind_rejectIf hone, bind_of_ok (Json.value_asStr htype ""), bind_rejectIf (not_not.mpr rfl),
    bind_of_ok (Json.value_asStr hinterpolation "rgb"), bind_rejectIf (not_not.mpr rfl),
    bind_of_ok (Json.value_asStr hwrap "clamp"), bind_of_ok hparsedWrap,
    bind_of_ok (Json.value_asDouble hcycles 1), bind_of_ok (Json.value_asDouble hphase 0),
    bind_rejectIf hbounds, bind_of_ok hreadInterior, bind_of_ok hreadInvalid,
    bind_of_ok (stopEntries_dump p), bind_of_ok hstops, bind_rejectIf hends]
  exact passes_pure _

end FractalStudio.Recipe
