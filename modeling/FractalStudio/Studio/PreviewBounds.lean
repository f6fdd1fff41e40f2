import FractalStudio.Studio.RecipeReads

/-!
# Bounds of a preview

`bound_preview_payload`, over the rationals. A preview is bounded when it is submitted and again
when a worker runs it, and its escape bands keep the colours of the durable render.
-/
namespace FractalStudio.Recipe

open FractalStudio.Guards

def previewMaxIterations : Int := 65536
def previewMaxPairwiseCap : Int := 128

structure PyText where
  int : String → Option Int
  float : String → Option ℚ

section
variable (text : PyText)

def previewInt (payload : Json) (key : String) (default : Int) : Except String Int :=
  let number := match payload.get? key with
    | none => some default
    | some (.str s) => text.int s
    | some v => pyInt v
  match number with
  | some n => .ok n
  | none => .error "int() argument must be a number"

def boundScale (payload : Json) : Json :=
  match payload.get? "scale" with
  | none => payload
  | some v =>
    let number := match v with
      | .str s => text.float s
      | v => pyFloat v
    payload.set "scale" (match number with
      | some x => .float (min (max x renderMinScale) renderMaxScale)
      | none => .int 3)

/-- The cycles of an escape gradient, scaled by the denominators of the renderer. -/
def scaleCycles (previewIterations originalIterations : Int) (payload : Json) : Json :=
  match payload.get? "colorProgram" with
  | some program =>
    match (program.get? "cycles").bind pyFloat with
    | some cycles =>
      if previewIterations < originalIterations ∧
          (payload.get? "metric").bind Json.str? = some "escape" then
        payload.set "colorProgram" (program.set "cycles"
          (.float (cycles * ((previewIterations + 2) / (originalIterations + 2)))))
      else payload
    | none => payload
  | none => payload

def boundPreviewPayload (payload : Json) : Except String Json := do
  let originalIterations := max 1 (← previewInt text payload "iterations" 1)
  let previewIterations := min originalIterations previewMaxIterations
  let bounded := payload.set "iterations" (.int previewIterations)
  let cap ← previewInt text bounded "pairwiseCap" previewMaxPairwiseCap
  let bounded := bounded.set "pairwiseCap" (.int (min cap previewMaxPairwiseCap))
  return scaleCycles previewIterations originalIterations (boundScale text bounded)

end

/-- The position of an escape iteration in a gradient, before its phase is added. -/
def gradientCoordinate (program : Compute.V1.ColorProgram) (iter : Nat) (iterations : Int) : ℚ :=
  (iter + 1) / (iterations + 2) * program.cycles

/-! ## Bounded payloads -/

/-- What the bounds leave, they leave again as it is. -/
structure Bounded (payload : Json) (iterations : Int) : Prop where
  iterations_held : payload.Holds "iterations" (.int iterations)
  iterations_bounds : 1 ≤ iterations ∧ iterations ≤ previewMaxIterations
  pairwiseCap : ∃ cap, payload.Holds "pairwiseCap" (.int cap) ∧ cap ≤ previewMaxPairwiseCap
  scale : payload.get? "scale" = none ∨
    ∃ x, payload.Holds "scale" (.float x) ∧ renderMinScale ≤ x ∧ x ≤ renderMaxScale

theorem renderScales : renderMinScale ≤ renderMaxScale := by
  norm_num [renderMinScale, renderMaxScale]

section
variable {text : PyText} {payload : Json} {key : String}

theorem previewInt_int {n : Int} (h : payload.get? key = some (.int n)) (default : Int) :
    previewInt text payload key default = .ok n := by
  simp only [previewInt, h, pyInt]

theorem boundPreviewPayload_eq {n m : Int} (hiterations : payload.get? "iterations" = some (.int n))
    (hcap : payload.get? "pairwiseCap" = some (.int m)) :
    boundPreviewPayload text payload = .ok (scaleCycles (min (max 1 n) previewMaxIterations) (max 1 n)
      (boundScale text ((payload.set "iterations" (.int (min (max 1 n) previewMaxIterations))).set
        "pairwiseCap" (.int (min m previewMaxPairwiseCap))))) := by
  have hcap' : (payload.set "iterations" (.int (min (max 1 n) previewMaxIterations))).get?
      "pairwiseCap" = some (.int m) := (Json.get?_set_ne _ _ (by decide)).trans hcap
  rw [boundPreviewPayload, bind_of_ok (previewInt_int hiterations 1),
    bind_of_ok (previewInt_int hcap' _)]
  rfl

theorem scaleCycles_of_le {preview original : Int} (h : original ≤ preview) :
    scaleCycles preview original payload = payload := by
  have hnot : ¬ (preview < original ∧ (payload.get? "metric").bind Json.str? = some "escape") :=
    fun hcut => absurd hcut.1 (not_lt.mpr h)
  unfold scaleCycles
  split
  · split
    · exact if_neg hnot
    · rfl
  · rfl

theorem boundScale_of_holds {x : ℚ} (h : payload.Holds "scale" (.float x))
    (hx : renderMinScale ≤ x ∧ x ≤ renderMaxScale) : boundScale text payload = payload := by
  simp only [boundScale, h.get?, pyFloat, max_eq_left hx.1, min_eq_left hx.2]
  exact h.set_eq

theorem Bounded.bound {n : Int} (h : Bounded payload n) :
    boundPreviewPayload text payload = .ok payload := by
  obtain ⟨cap, hcap, hcapBound⟩ := h.pairwiseCap
  have hn : min (max 1 n) previewMaxIterations = n := by
    rw [max_eq_right h.iterations_bounds.1, min_eq_left h.iterations_bounds.2]
  rw [boundPreviewPayload_eq h.iterations_held.get? hcap.get?, hn, h.iterations_held.set_eq,
    min_eq_left hcapBound, hcap.set_eq, scaleCycles_of_le (max_le h.iterations_bounds.1 le_rfl)]
  obtain hnone | ⟨x, hx, hbounds⟩ := h.scale
  · rw [boundScale, hnone]
  · rw [boundScale_of_holds hx hbounds]

theorem boundScale_cases (text : PyText) (payload : Json) :
    (payload.get? "scale" = none ∧ boundScale text payload = payload) ∨
      ∃ v, payload.get? "scale" = some v ∧ ∃ w, boundScale text payload = payload.set "scale" w ∧
        ((pyFloat v).isSome → ∃ x, w = .float x ∧ renderMinScale ≤ x ∧ x ≤ renderMaxScale) := by
  unfold boundScale
  cases hscale : payload.get? "scale" with
  | none => exact .inl ⟨rfl, rfl⟩
  | some v =>
    refine .inr ⟨v, rfl, _, rfl, fun hnumber => ?_⟩
    obtain ⟨x, hx⟩ := Option.isSome_iff_exists.mp hnumber
    refine ⟨min (max x renderMinScale) renderMaxScale, ?_, ?_, min_le_right _ _⟩
    · cases v with
      | str s => cases hx
      | _ => simp only [hx]
    · exact le_min (le_max_right _ _) renderScales

theorem scaleCycles_cases (preview original : Int) (payload : Json) :
    scaleCycles preview original payload = payload ∨
      ∃ program, scaleCycles preview original payload = payload.set "colorProgram" program := by
  unfold scaleCycles
  split
  · split
    · split
      · exact .inr ⟨_, rfl⟩
      · exact .inl rfl
    · exact .inl rfl
  · exact .inl rfl

theorem Bounded.set_ne {n : Int} (h : Bounded payload n)
    (hkey : key ∉ ["iterations", "pairwiseCap", "scale"]) (x : Json) :
    Bounded (payload.set key x) n := by
  simp only [List.mem_cons, List.not_mem_nil, or_false, not_or] at hkey
  obtain ⟨cap, hcap, hcapBound⟩ := h.pairwiseCap
  refine ⟨h.iterations_held.set_ne hkey.1 x, h.iterations_bounds,
    ⟨cap, hcap.set_ne hkey.2.1 x, hcapBound⟩, h.scale.imp (fun hnone => ?_) ?_⟩
  · exact (Json.get?_set_ne payload x (Ne.symm hkey.2.2)).trans hnone
  · rintro ⟨y, hy, hbounds⟩
    exact ⟨y, hy.set_ne hkey.2.2 x, hbounds⟩

theorem whole_numbers (hobj : payload.isObj = true) (n m : Int) :
    ((payload.set "iterations" (.int n)).set "pairwiseCap" (.int m)).Holds "iterations" (.int n) ∧
    ((payload.set "iterations" (.int n)).set "pairwiseCap" (.int m)).Holds "pairwiseCap" (.int m) ∧
    ((payload.set "iterations" (.int n)).set "pairwiseCap" (.int m)).get? "scale" =
      payload.get? "scale" := by
  refine ⟨(Json.holds_set hobj _ _).set_ne (by decide) _, Json.holds_set ?_ _ _, ?_⟩
  · rwa [Json.isObj_set]
  · rw [Json.get?_set_ne _ _ (by decide), Json.get?_set_ne _ _ (by decide)]

theorem bounded_of_bound {n m : Int} (hobj : payload.isObj = true)
    (hiterations : payload.get? "iterations" = some (.int n))
    (hcap : payload.get? "pairwiseCap" = some (.int m))
    (hscale : ∀ v, payload.get? "scale" = some v → (pyFloat v).isSome) {bounded : Json}
    (h : boundPreviewPayload text payload = .ok bounded) :
    Bounded bounded (min (max 1 n) previewMaxIterations) ∧
      bounded.contains "scale" = payload.contains "scale" := by
  rw [boundPreviewPayload_eq hiterations hcap] at h
  obtain rfl := Except.ok.inj h
  obtain ⟨hheld, hcapHeld, hget⟩ := whole_numbers hobj (min (max 1 n) previewMaxIterations)
    (min m previewMaxPairwiseCap)
  generalize hwhole : (payload.set "iterations" (.int (min (max 1 n) previewMaxIterations))).set
    "pairwiseCap" (.int (min m previewMaxPairwiseCap)) = whole at hheld hcapHeld hget ⊢
  have hbounds : 1 ≤ min (max 1 n) previewMaxIterations ∧
      min (max 1 n) previewMaxIterations ≤ previewMaxIterations :=
    ⟨le_min (le_max_left _ _) (by decide), min_le_right _ _⟩
  have hcapBound : min m previewMaxPairwiseCap ≤ previewMaxPairwiseCap := min_le_right _ _
  have hscaled : Bounded (boundScale text whole) (min (max 1 n) previewMaxIterations) ∧
      (boundScale text whole).contains "scale" = payload.contains "scale" := by
    obtain ⟨hnone, heq⟩ | ⟨v, hv, w, heq, hw⟩ := boundScale_cases text whole
    · rw [heq, Json.contains, Json.contains, hget]
      exact ⟨⟨hheld, hbounds, ⟨_, hcapHeld, hcapBound⟩, .inl hnone⟩, rfl⟩
    · rw [hget] at hv
      obtain ⟨x, rfl, hx⟩ := hw (hscale v hv)
      have hwholeObj : whole.isObj = true := Json.isObj_of_get? hheld.get?
      have hx' := Json.holds_set hwholeObj "scale" (.float x)
      rw [heq, Json.contains, Json.contains, hx'.get?, hv]
      exact ⟨⟨hheld.set_ne (by decide) _, hbounds, ⟨_, hcapHeld.set_ne (by decide) _, hcapBound⟩,
        .inr ⟨x, hx', hx⟩⟩, rfl⟩
  obtain heq | ⟨program, heq⟩ := scaleCycles_cases (min (max 1 n) previewMaxIterations) (max 1 n)
    (boundScale text whole)
  · rwa [heq]
  · rw [heq, Json.contains, Json.get?_set_ne _ _ (by decide)]
    exact ⟨hscaled.1.set_ne (by decide) program, hscaled.2⟩

end

/-! ## The gradient of the renderer -/

section
open Compute.V1 (parseColorProgramJson rejectUnknownFields parseWrap colorField stopEntries parseStops)

variable {text : PyText} {payload program : Json} {key : String} {gradient : Compute.V1.ColorProgram}

theorem value_set_ne {α : Type} {read : Json → Except String α} {v : Json} {key key' : String}
    (hv : v.isObj = true) (hne : key' ≠ key) (x : Json) (default : α) :
    (v.set key x).value read key' default = v.value read key' default := by
  have hget := Json.get?_set_ne v x hne
  cases hold : v.get? key' with
  | none =>
    rw [Json.value_none hv hold, Json.value_none (by rwa [Json.isObj_set]) (hget.trans hold)]
  | some y => rw [Json.value_some hold, Json.value_some (hget.trans hold)]

theorem rejectUnknownFields_set {v : Json} {allowed : List String} {objectName : String}
    {u : Unit} (key : String) (h : rejectUnknownFields v allowed objectName = .ok u) (hkey : key ∈ allowed)
    (x : Json) : Passes (rejectUnknownFields (v.set key x) allowed objectName) := by
  cases v with
  | obj fields =>
    have hfields := passes_forM.mp ⟨u, h⟩
    simp only [passes_rejectIf, not_not] at hfields
    simp only [Json.set]
    split
    · refine passes_forM.mpr fun e he => passes_rejectIf.mpr (not_not.mpr ?_)
      obtain ⟨e', he', rfl⟩ := List.mem_map.mp he
      split
      · exact hkey
      · exact hfields e' he'
    · refine passes_forM.mpr fun e he => passes_rejectIf.mpr (not_not.mpr ?_)
      obtain he | he := List.mem_append.mp he
      · exact hfields e he
      · rw [List.mem_singleton.mp he]
        exact hkey
  | _ => exact ⟨_, rfl⟩

theorem parseColorProgramJson_cycles {v : Json} (h : parseColorProgramJson v = .ok gradient) :
    v.value Json.asDouble "cycles" 1 = .ok gradient.cycles ∧
      (0 < gradient.cycles ∧ gradient.cycles ≤ 256) ∧
      ∀ cycles : ℚ, 0 < cycles ∧ cycles ≤ 256 →
        parseColorProgramJson (v.set "cycles" (.float cycles)) =
          .ok { gradient with cycles := cycles } := by
  obtain ⟨_, hobj, h⟩ := bind_eq_ok.mp h
  obtain ⟨_, hunknown, h⟩ := bind_eq_ok.mp h
  obtain ⟨version, hversion, h⟩ := bind_eq_ok.mp h
  obtain ⟨_, hversionOne, h⟩ := bind_eq_ok.mp h
  obtain ⟨type, htype, h⟩ := bind_eq_ok.mp h
  obtain ⟨_, htypeGradient, h⟩ := bind_eq_ok.mp h
  obtain ⟨interpolation, hinterpolation, h⟩ := bind_eq_ok.mp h
  obtain ⟨_, hinterpolationRgb, h⟩ := bind_eq_ok.mp h
  obtain ⟨wrapName, hwrapName, h⟩ := bind_eq_ok.mp h
  obtain ⟨wrap, hwrap, h⟩ := bind_eq_ok.mp h
  obtain ⟨old, hold, h⟩ := bind_eq_ok.mp h
  obtain ⟨phase, hphase, h⟩ := bind_eq_ok.mp h
  obtain ⟨_, holdBounds, h⟩ := bind_eq_ok.mp h
  obtain ⟨interior, hinterior, h⟩ := bind_eq_ok.mp h
  obtain ⟨invalid, hinvalid, h⟩ := bind_eq_ok.mp h
  obtain ⟨entries, hentries, h⟩ := bind_eq_ok.mp h
  obtain ⟨stops, hstops, h⟩ := bind_eq_ok.mp h
  obtain ⟨_, hends, h⟩ := bind_eq_ok.mp h
  obtain rfl := Except.ok.inj h
  have hbounds := passes_rejectIf.mp ⟨_, holdBounds⟩
  rw [not_or, not_le, not_lt] at hbounds
  refine ⟨hold, hbounds, fun cycles hcycles => ?_⟩
  have hv : v.isObj = true := by
    have hnot := passes_rejectIf.mp ⟨_, hobj⟩
    simpa using hnot
  obtain ⟨u, hunknown'⟩ := rejectUnknownFields_set "cycles" hunknown (by simp) (.float cycles)
  have hget (key : String) (hne : key ≠ "cycles") :
      (v.set "cycles" (.float cycles)).get? key = v.get? key := Json.get?_set_ne v _ hne
  have hnew : ¬ (cycles ≤ 0 ∨ 256 < cycles) := by
    rw [not_or, not_le, not_lt]
    exact hcycles
  rw [parseColorProgramJson, Json.isObj_set, bind_of_ok hobj, bind_of_ok hunknown',
    value_set_ne hv (by decide), bind_of_ok hversion, bind_of_ok hversionOne,
    value_set_ne hv (by decide), bind_of_ok htype, bind_of_ok htypeGradient,
    value_set_ne hv (by decide), bind_of_ok hinterpolation, bind_of_ok hinterpolationRgb,
    value_set_ne hv (by decide), bind_of_ok hwrapName, bind_of_ok hwrap,
    bind_of_ok (Json.value_asDouble (Json.get?_set_self hv "cycles" (.float cycles)) 1),
    value_set_ne hv (by decide), bind_of_ok hphase, bind_rejectIf hnew,
    colorField, hget "interiorColor" (by decide), ← colorField, bind_of_ok hinterior,
    colorField, hget "invalidColor" (by decide), ← colorField, bind_of_ok hinvalid,
    stopEntries, hget "stops" (by decide), ← stopEntries, bind_of_ok hentries, bind_of_ok hstops,
    bind_of_ok hends]
  rfl

theorem get?_bounded {n m : Int} (hkey : key ∉ ["iterations", "pairwiseCap", "scale"]) :
    (boundScale text ((payload.set "iterations" (.int n)).set "pairwiseCap" (.int m))).get? key =
      payload.get? key := by
  simp only [List.mem_cons, List.not_mem_nil, or_false, not_or] at hkey
  have hwhole : ((payload.set "iterations" (.int n)).set "pairwiseCap" (.int m)).get? key =
      payload.get? key := by
    rw [Json.get?_set_ne _ _ hkey.2.1, Json.get?_set_ne _ _ hkey.1]
  obtain ⟨-, heq⟩ | ⟨v, -, w, heq, -⟩ := boundScale_cases text
    ((payload.set "iterations" (.int n)).set "pairwiseCap" (.int m))
  · rwa [heq]
  · rwa [heq, Json.get?_set_ne _ _ hkey.2.2]

theorem cycles_of_parse (hparse : parseColorProgramJson program = .ok gradient)
    (hcycles : program.contains "cycles" = true) :
    (program.get? "cycles").bind pyFloat = some gradient.cycles := by
  obtain ⟨v, hv⟩ := Option.isSome_iff_exists.mp hcycles
  have hread := (parseColorProgramJson_cycles hparse).1
  rw [Json.value_some hv] at hread
  rw [hv, Option.bind_some]
  cases v with
  | int n => exact congrArg some (Except.ok.inj hread)
  | float q => exact congrArg some (Except.ok.inj hread)
  | _ => cases hread

theorem denominator_pos {n : Int} (hn : 1 ≤ n) : (0 : ℚ) < n + 2 := by
  have hcast : ((1 : Int) : ℚ) ≤ n := Int.cast_le.mpr hn
  push_cast at hcast
  linarith

theorem ratio_bounds {a n : Int} (ha : 1 ≤ a) (h : a ≤ n) :
    0 < ((a : ℚ) + 2) / (n + 2) ∧ ((a : ℚ) + 2) / (n + 2) ≤ 1 := by
  have hcast : (a : ℚ) ≤ n := Int.cast_le.mpr h
  refine ⟨div_pos (denominator_pos ha) (denominator_pos (ha.trans h)), ?_⟩
  rw [div_le_one (denominator_pos (ha.trans h))]
  linarith

theorem gradientCoordinate_scaled (gradient : Compute.V1.ColorProgram) {a n : Int} (ha : 1 ≤ a)
    (hn : 1 ≤ n) (k : Nat) :
    gradientCoordinate { gradient with cycles := gradient.cycles * (((a : ℚ) + 2) / (n + 2)) } k a =
      gradientCoordinate gradient k n := by
  have ha' := (denominator_pos ha).ne'
  have hn' := (denominator_pos hn).ne'
  rw [gradientCoordinate, gradientCoordinate]
  field_simp

/-- The factor of the cycles; where nothing is cut it is 1 as well. -/
def cyclesRatio (payload : Json) (preview original : Int) : ℚ :=
  if (payload.get? "metric").bind Json.str? = some "escape" then (preview + 2) / (original + 2) else 1

theorem scaleCycles_gradient {preview original : Int} (hpreview : 1 ≤ preview)
    (hle : preview ≤ original) (hprogram : payload.get? "colorProgram" = some program)
    (hparse : parseColorProgramJson program = .ok gradient)
    (hcycles : program.contains "cycles" = true) :
    ∃ program', (scaleCycles preview original payload).get? "colorProgram" = some program' ∧
      parseColorProgramJson program' = .ok { gradient with
        cycles := gradient.cycles * cyclesRatio payload preview original } := by
  obtain ⟨-, ⟨hpos, hmax⟩, hother⟩ := parseColorProgramJson_cycles hparse
  simp only [scaleCycles, hprogram, cycles_of_parse hparse hcycles]
  by_cases hcut : preview < original ∧ (payload.get? "metric").bind Json.str? = some "escape"
  · rw [if_pos hcut, cyclesRatio, if_pos hcut.2]
    obtain ⟨hratio, hratioLe⟩ := ratio_bounds hpreview hle
    refine ⟨_, Json.get?_set_self (Json.isObj_of_get? hprogram) _ _,
      hother _ ⟨mul_pos hpos hratio, ?_⟩⟩
    exact (mul_le_of_le_one_right hpos.le hratioLe).trans hmax
  · rw [if_neg hcut]
    have hratio : cyclesRatio payload preview original = 1 := by
      rw [cyclesRatio]
      split
      · next hmetric =>
        have hsame : preview = original := le_antisymm hle (not_lt.mp fun h => hcut ⟨h, hmetric⟩)
        rw [hsame, div_self (denominator_pos (hpreview.trans hle)).ne']
      · rfl
    exact ⟨program, hprogram, by rw [hratio, mul_one]; exact hparse⟩

theorem gradient_bounded {bounded : Json} (hprogram : payload.get? "colorProgram" = some program)
    (hparse : parseColorProgramJson program = .ok gradient)
    (hcycles : program.contains "cycles" = true) (h : boundPreviewPayload text payload = .ok bounded) :
    ∃ n, previewInt text payload "iterations" 1 = .ok n ∧
      ∃ program', bounded.get? "colorProgram" = some program' ∧
        parseColorProgramJson program' = .ok { gradient with
          cycles := gradient.cycles *
            cyclesRatio payload (min (max 1 n) previewMaxIterations) (max 1 n) } := by
  obtain ⟨n, hn, h⟩ := bind_eq_ok.mp h
  obtain ⟨cap, -, h⟩ := bind_eq_ok.mp h
  obtain rfl := Except.ok.inj h
  have hpreview : 1 ≤ min (max 1 n) previewMaxIterations := le_min (le_max_left _ _) (by decide)
  have hkept (key : String) (hkey : key ∉ ["iterations", "pairwiseCap", "scale"]) :
      (boundScale text ((payload.set "iterations" (.int (min (max 1 n) previewMaxIterations))).set
        "pairwiseCap" (.int (min cap previewMaxPairwiseCap)))).get? key = payload.get? key :=
    get?_bounded hkey
  have hratio (scaled : Json) (hmetric : scaled.get? "metric" = payload.get? "metric")
      (a b : Int) : cyclesRatio scaled a b = cyclesRatio payload a b := by
    rw [cyclesRatio, cyclesRatio, hmetric]
  obtain ⟨program', hprogram', hparse'⟩ := scaleCycles_gradient hpreview (min_le_left _ _)
    ((hkept "colorProgram" (by decide)).trans hprogram) hparse hcycles
  rw [hratio _ (hkept "metric" (by decide))] at hparse'
  exact ⟨n, hn, program', hprogram', hparse'⟩

end

/-- A preview is bounded once and for all, and an escape gradient that gives its cycles has every
iteration where the durable render has it. -/
theorem preview_bounded_once (text : PyText) (payload : Json) (hobj : payload.isObj = true)
    {n m : Int} (hiterations : payload.get? "iterations" = some (.int n))
    (hcap : payload.get? "pairwiseCap" = some (.int m))
    (hscale : ∀ v, payload.get? "scale" = some v → (pyFloat v).isSome) :
    ∃ bounded b, boundPreviewPayload text payload = .ok bounded ∧
      boundPreviewPayload text bounded = .ok bounded ∧
      bounded.get? "iterations" = some (.int b) ∧ 1 ≤ b ∧ b ≤ 65536 ∧
      bounded.contains "scale" = payload.contains "scale" ∧
      (∀ v, bounded.get? "scale" = some v →
        ∃ x, v = .float x ∧ renderMinScale ≤ x ∧ x ≤ renderMaxScale) ∧
      ∀ program gradient, payload.get? "metric" = some (.str "escape") →
        payload.get? "colorProgram" = some program →
        Compute.V1.parseColorProgramJson program = .ok gradient →
        program.contains "cycles" = true →
        ∃ program' gradient', bounded.get? "colorProgram" = some program' ∧
          Compute.V1.parseColorProgramJson program' = .ok gradient' ∧
          ∀ k : Nat, (k : Int) < n → (k : Int) < b →
            gradientCoordinate gradient' k b = gradientCoordinate gradient k n := by
  have hbound : boundPreviewPayload text payload = .ok _ := boundPreviewPayload_eq hiterations hcap
  obtain ⟨hbounded, hcontains⟩ := bounded_of_bound hobj hiterations hcap hscale hbound
  refine ⟨_, min (max 1 n) previewMaxIterations, hbound, hbounded.bound,
    hbounded.iterations_held.get?, hbounded.iterations_bounds.1, hbounded.iterations_bounds.2,
    hcontains, fun v hv => ?_, ?_⟩
  · obtain hnone | ⟨x, hx, hxBounds⟩ := hbounded.scale
    · cases hnone.symm.trans hv
    · exact ⟨x, Option.some.inj (hv.symm.trans hx.get?), hxBounds⟩
  · intro program gradient hmetric hprogram hparse hcycles
    by_cases hn : 1 ≤ n
    · obtain ⟨n', hn', program', hprogram', hparse'⟩ :=
        gradient_bounded hprogram hparse hcycles hbound
      rw [previewInt_int hiterations] at hn'
      obtain rfl := Except.ok.inj hn'
      refine ⟨program', _, hprogram', hparse', fun k _ _ => ?_⟩
      have hescape : (payload.get? "metric").bind Json.str? = some "escape" := by
        rw [hmetric]
        rfl
      rw [max_eq_right hn, cyclesRatio, if_pos hescape]
      exact gradientCoordinate_scaled gradient (le_min hn (by decide)) hn k
    · have hone : max 1 n = 1 := max_eq_left (not_le.mp hn).le
      have hprogram' : (scaleCycles (min (max 1 n) previewMaxIterations) (max 1 n)
          (boundScale text ((payload.set "iterations"
            (.int (min (max 1 n) previewMaxIterations))).set "pairwiseCap"
              (.int (min m previewMaxPairwiseCap))))).get? "colorProgram" = some program := by
        rw [scaleCycles_of_le (by rw [hone]; decide), get?_bounded (by decide)]
        exact hprogram
      exact ⟨program, gradient, hprogram', hparse, fun k hk _ => absurd hk (by omega)⟩

/-! ## Gradients that are not kept -/

def gradientOf (cycles : List (String × Json)) : Json :=
  .obj ([("schemaVersion", .int 1), ("type", .str "gradient")] ++ cycles ++
    [("stops", .arr [.obj [("at", .int 0), ("color", .str "#000000")],
      .obj [("at", .int 1), ("color", .str "#ffffff")]])])

def escapePayload (iterations : Int) (program : Json) : Json :=
  .obj [("iterations", .int iterations), ("pairwiseCap", .int 64), ("metric", .str "escape"),
    ("colorProgram", program)]

def noText : PyText := ⟨fun _ => none, fun _ => none⟩

/-- The gradient of the renderer for a program with one cycle. -/
def oneCycle : Compute.V1.ColorProgram where
  stops := [⟨0, ⟨0, 0, 0⟩⟩, ⟨1, ⟨255, 255, 255⟩⟩]
  wrap := .clamp
  cycles := 1
  phase := 0
  interior := ⟨255, 255, 255⟩
  invalid := ⟨255, 0, 255⟩

/-- The iterations come down to the bound, and stay there. -/
theorem preview_bounded_once_long :
    ∃ bounded b program gradient,
      boundPreviewPayload noText (escapePayload 1000000 (gradientOf [("cycles", .int 1)])) =
        .ok bounded ∧
      boundPreviewPayload noText bounded = .ok bounded ∧ b ≤ 65536 ∧
      bounded.get? "iterations" = some (.int b) ∧ bounded.get? "colorProgram" = some program ∧
      Compute.V1.parseColorProgramJson program = .ok gradient ∧
      gradientCoordinate gradient 0 b = 1 / 1000002 := by
  have hparse : Compute.V1.parseColorProgramJson (gradientOf [("cycles", .int 1)]) =
      .ok oneCycle := rfl
  obtain ⟨bounded, b, hbound, hagain, hb, hbpos, hble, -, -, hcolours⟩ :=
    preview_bounded_once noText (escapePayload 1000000 (gradientOf [("cycles", .int 1)]))
      rfl rfl rfl (fun v hv => by cases hv)
  obtain ⟨program, gradient, hprogram, hparse', hsame⟩ := hcolours _ _ rfl rfl hparse rfl
  refine ⟨bounded, b, program, gradient, hbound, hagain, hble, hb, hprogram, hparse', ?_⟩
  rw [hsame 0 (by decide) (by push_cast; omega)]
  norm_num [gradientCoordinate, oneCycle]

/-- Cycles that the program leaves to the renderer are not scaled, and where there is no iteration
the bounds add one. -/
theorem preview_gradient_moves :
    (boundPreviewPayload noText (escapePayload 1000000 (gradientOf [])) =
        .ok (escapePayload 65536 (gradientOf [])) ∧
      Compute.V1.parseColorProgramJson (gradientOf []) = .ok oneCycle ∧
      gradientCoordinate oneCycle 0 65536 ≠ gradientCoordinate oneCycle 0 1000000) ∧
    boundPreviewPayload noText (escapePayload 0 (gradientOf [("cycles", .int 1)])) =
        .ok (escapePayload 1 (gradientOf [("cycles", .int 1)])) ∧
      Compute.V1.parseColorProgramJson (gradientOf [("cycles", .int 1)]) = .ok oneCycle ∧
      gradientCoordinate oneCycle 0 1 ≠ gradientCoordinate oneCycle 0 0 := by
  refine ⟨⟨rfl, rfl, ?_⟩, rfl, rfl, ?_⟩
  · norm_num [gradientCoordinate, oneCycle]
  · norm_num [gradientCoordinate, oneCycle]

end FractalStudio.Recipe
