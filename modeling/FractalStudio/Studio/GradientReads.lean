import FractalStudio.Compute.ColorProgram
import FractalStudio.Studio.PreviewBounds

/-!
# Gradients on both sides

Every gradient that the Platform accepts is the colour program that the node reads, also when the
bounds of a preview have scaled its cycles. Every colour program that the node reads interpolates
between its stops, over exact arithmetic.
-/
namespace FractalStudio.Recipe

open FractalStudio.Guards FractalStudio.Interpolation FractalStudio.Compute FractalStudio.Compute.V1

/-! ## Colours -/

/-- A colour as `#rrggbb`. -/
def colorText (c : ProgramColor) : List Char :=
  '#' :: [c.r, c.g, c.b].flatMap fun n => [Nat.digitChar (n / 16), Nat.digitChar (n % 16)]

/-- A text names a colour, in whatever case its digits are. -/
def Names (s : String) (c : ProgramColor) : Prop := s.toList.map Char.toLower = colorText c

theorem hexDigit_ascii : ∀ n < 128, ∀ d ∈ hexDigit (Char.ofNat n),
    d < 16 ∧ Nat.digitChar d = (Char.ofNat n).toLower := by decide

theorem hexDigit_eq_some {c : Char} {d : Nat} (h : hexDigit c = some d) :
    d < 16 ∧ Nat.digitChar d = c.toLower := by
  have hascii : c.toNat < 128 := by
    unfold hexDigit at h
    have hbound (last : Char) (hlast : last.toNat < 128) (hle : c ≤ last) : c.toNat < 128 :=
      (show c.toNat ≤ last.toNat from hle).trans_lt hlast
    split at h
    · next hrange => exact hbound _ (by decide) hrange.2
    · split at h
      · next hrange => exact hbound _ (by decide) hrange.2
      · split at h
        · next hrange => exact hbound _ (by decide) hrange.2
        · cases h
  have hchar : Char.ofNat c.toNat = c := Char.ofNat_toNat c
  have hdigit := hexDigit_ascii c.toNat hascii d (by rw [hchar]; exact h)
  rwa [hchar] at hdigit

theorem parseColor_eq_ok {value : Json} {field : String} {c : ProgramColor}
    (h : parseColor value field = .ok c) :
    (∀ channel ∈ ProgramColor.channels, channel c ≤ 255) ∧ ∀ s, value = .str s → Names s c := by
  unfold parseColor at h
  split at h
  · next s =>
    split at h
    · next digits hdigits =>
      split at h
      · next r₁ r₀ g₁ g₀ b₁ b₀ hmap =>
        obtain rfl := Except.ok.inj h
        obtain ⟨x₁, _, rfl, hx₁, hmap⟩ := List.map_eq_cons_iff.mp hmap
        obtain ⟨x₀, _, rfl, hx₀, hmap⟩ := List.map_eq_cons_iff.mp hmap
        obtain ⟨y₁, _, rfl, hy₁, hmap⟩ := List.map_eq_cons_iff.mp hmap
        obtain ⟨y₀, _, rfl, hy₀, hmap⟩ := List.map_eq_cons_iff.mp hmap
        obtain ⟨z₁, _, rfl, hz₁, hmap⟩ := List.map_eq_cons_iff.mp hmap
        obtain ⟨z₀, _, rfl, hz₀, hmap⟩ := List.map_eq_cons_iff.mp hmap
        obtain rfl := List.map_eq_nil_iff.mp hmap
        obtain ⟨hr₁, tr₁⟩ := hexDigit_eq_some hx₁
        obtain ⟨hr₀, tr₀⟩ := hexDigit_eq_some hx₀
        obtain ⟨hg₁, tg₁⟩ := hexDigit_eq_some hy₁
        obtain ⟨hg₀, tg₀⟩ := hexDigit_eq_some hy₀
        obtain ⟨hb₁, tb₁⟩ := hexDigit_eq_some hz₁
        obtain ⟨hb₀, tb₀⟩ := hexDigit_eq_some hz₀
        constructor
        · intro channel hchannel
          simp only [ProgramColor.channels, List.mem_cons, List.not_mem_nil, or_false] at hchannel
          obtain rfl | rfl | rfl := hchannel
          · show r₁ * 16 + r₀ ≤ 255
            omega
          · show g₁ * 16 + g₀ ≤ 255
            omega
          · show b₁ * 16 + b₀ ≤ 255
            omega
        · intro s' hs'
          cases hs'
          have hsplit {high low : Nat} (hlow : low < 16) :
              (high * 16 + low) / 16 = high ∧ (high * 16 + low) % 16 = low := by omega
          simp only [Names, colorText, hdigits, List.map_cons, List.map_nil, List.flatMap_cons,
            List.flatMap_nil, List.cons_append, List.nil_append, hsplit hr₀, hsplit hg₀, hsplit hb₀,
            tr₁, tr₀, tg₁, tg₀, tb₁, tb₀]
          rfl
      · cases h
    · cases h
  · cases h

/-! ## What the node reads -/

theorem parseStop_eq_ok {previous : ℚ} {stop : Json} {read : ProgramColorStop}
    (h : parseStop previous stop = .ok read) :
    (stop.get? "at").map Json.asDouble = some (.ok read.at') ∧
      (∃ color, stop.get? "color" = some color ∧
        parseColor color "color stop color" = .ok read.color) ∧ previous < read.at' := by
  obtain ⟨_, -, h⟩ := bind_eq_ok.mp h
  obtain ⟨_, -, h⟩ := bind_eq_ok.mp h
  split at h
  · next position color hat hcolor =>
    obtain ⟨_, hbounds, h⟩ := bind_eq_ok.mp h
    obtain ⟨c, hc, h⟩ := bind_eq_ok.mp h
    obtain rfl := Except.ok.inj h
    have hnot := passes_rejectIf.mp ⟨_, hbounds⟩
    simp only [not_or, not_le] at hnot
    exact ⟨hat, ⟨color, hcolor, hc⟩, hnot.2.2⟩
  · cases h

theorem parseStops_eq_ok {previous : ℚ} {entries : List Json} {stops : List ProgramColorStop}
    (h : parseStops previous entries = .ok stops) :
    (previous :: stops.map ProgramColorStop.at').IsChain (· < ·) ∧
      List.Forall₂ (fun entry stop => ∃ previous, parseStop previous entry = .ok stop) entries
        stops ∧
      ∀ stop ∈ stops, ∃ previous entry, parseStop previous entry = .ok stop := by
  induction entries generalizing previous stops with
  | nil =>
    obtain rfl := Except.ok.inj h
    exact ⟨List.isChain_singleton _, .nil, fun _ hstop => absurd hstop List.not_mem_nil⟩
  | cons entry entries ih =>
    obtain ⟨first, hfirst, h⟩ := bind_eq_ok.mp h
    obtain ⟨rest, hrest, h⟩ := bind_eq_ok.mp h
    obtain rfl := Except.ok.inj h
    obtain ⟨hchain, hread, hstop⟩ := ih hrest
    rw [List.map_cons, List.isChain_cons_cons]
    exact ⟨⟨(parseStop_eq_ok hfirst).2.2, hchain⟩, .cons ⟨previous, hfirst⟩ hread,
      List.forall_mem_cons.mpr ⟨⟨previous, entry, hfirst⟩, hstop⟩⟩

structure ParsedFrom (v : Json) (g : Compute.V1.ColorProgram) : Prop where
  wrap : ∃ name, v.value Json.asStr "wrap" "clamp" = .ok name ∧ parseWrap name = .ok g.wrap
  cycles : v.value Json.asDouble "cycles" 1 = .ok g.cycles
  phase : v.value Json.asDouble "phase" 0 = .ok g.phase
  interior : colorField v "interiorColor" ⟨255, 255, 255⟩ = .ok g.interior
  invalid : colorField v "invalidColor" ⟨255, 0, 255⟩ = .ok g.invalid
  stops : ∃ entries, stopEntries v = .ok entries ∧ parseStops (-1) entries = .ok g.stops
  ends : g.stops.head?.map ProgramColorStop.at' = some 0 ∧
    g.stops.getLast?.map ProgramColorStop.at' = some 1

theorem parsedFrom {v : Json} {g : Compute.V1.ColorProgram} (h : parseColorProgramJson v = .ok g) :
    ParsedFrom v g := by
  obtain ⟨_, -, h⟩ := bind_eq_ok.mp h
  obtain ⟨_, -, h⟩ := bind_eq_ok.mp h
  obtain ⟨version, -, h⟩ := bind_eq_ok.mp h
  obtain ⟨_, -, h⟩ := bind_eq_ok.mp h
  obtain ⟨type, -, h⟩ := bind_eq_ok.mp h
  obtain ⟨_, -, h⟩ := bind_eq_ok.mp h
  obtain ⟨interpolation, -, h⟩ := bind_eq_ok.mp h
  obtain ⟨_, -, h⟩ := bind_eq_ok.mp h
  obtain ⟨wrapName, hwrapName, h⟩ := bind_eq_ok.mp h
  obtain ⟨wrap, hwrap, h⟩ := bind_eq_ok.mp h
  obtain ⟨cycles, hcycles, h⟩ := bind_eq_ok.mp h
  obtain ⟨phase, hphase, h⟩ := bind_eq_ok.mp h
  obtain ⟨_, -, h⟩ := bind_eq_ok.mp h
  obtain ⟨interior, hinterior, h⟩ := bind_eq_ok.mp h
  obtain ⟨invalid, hinvalid, h⟩ := bind_eq_ok.mp h
  obtain ⟨entries, hentries, h⟩ := bind_eq_ok.mp h
  obtain ⟨stops, hstops, h⟩ := bind_eq_ok.mp h
  obtain ⟨_, hends, h⟩ := bind_eq_ok.mp h
  obtain rfl := Except.ok.inj h
  have hnot := passes_rejectIf.mp ⟨_, hends⟩
  simp only [not_or, not_not] at hnot
  exact ⟨⟨wrapName, hwrapName, hwrap⟩, hcycles, hphase, hinterior, hinvalid,
    ⟨entries, hentries, hstops⟩, hnot⟩

theorem ParsedFrom.valid {v : Json} {g : Compute.V1.ColorProgram} (h : ParsedFrom v g) : g.Valid := by
  obtain ⟨entries, -, hstops⟩ := h.stops
  obtain ⟨hchain, -, hread⟩ := parseStops_eq_ok hstops
  refine ⟨h.ends.1, h.ends.2, List.IsChain.tail hchain, fun stop hstop => ?_⟩
  obtain ⟨previous, entry, hentry⟩ := hread stop hstop
  obtain ⟨-, ⟨color, -, hcolor⟩, -⟩ := parseStop_eq_ok hentry
  exact (parseColor_eq_ok hcolor).1

/-! ## The gradients of the Platform -/

/-- The wrap of a gradient, as it is written. -/
def wrapName : ColorWrap → String
  | .clamp => "clamp"
  | .repeat' => "repeat"
  | .mirror => "mirror"

/-- The same program on both sides. -/
structure ColorProgram.ReadAs (p : ColorProgram) (g : Compute.V1.ColorProgram) : Prop where
  wrap : wrapName g.wrap = p.wrap.text
  cycles : g.cycles = p.cycles
  phase : g.phase = p.phase
  interior : Names p.interiorColor g.interior
  invalid : Names p.invalidColor g.invalid
  stops : List.Forall₂ (fun stop read => read.at' = stop.at' ∧ Names stop.color read.color)
    p.stops g.stops

theorem wrap_readAs {wrap : Wrap} {read : ColorWrap} (h : parseWrap wrap.text = .ok read) :
    wrapName read = wrap.text := by
  cases wrap with
  | clamp =>
    obtain rfl := Except.ok.inj (h : Except.ok ColorWrap.clamp = _)
    rfl
  | repeat' =>
    obtain rfl := Except.ok.inj (h : Except.ok ColorWrap.repeat' = _)
    rfl
  | mirror =>
    obtain rfl := Except.ok.inj (h : Except.ok ColorWrap.mirror = _)
    rfl

theorem colorField_names {v : Json} {field s : String} {default c : ProgramColor}
    (hget : v.get? field = some (.str s)) (h : colorField v field default = .ok c) : Names s c := by
  rw [colorField, hget] at h
  exact (parseColor_eq_ok h).2 s rfl

theorem stop_readAs {previous : ℚ} {stop : GradientStop} {read : ProgramColorStop}
    (h : parseStop previous stop.dump = .ok read) :
    read.at' = stop.at' ∧ Names stop.color read.color := by
  have hposition : (stop.dump.get? "at").map Json.asDouble = some (.ok stop.at') := by
    simp [GradientStop.dump, Json.asDouble]
  have htext : stop.dump.get? "color" = some (.str stop.color) := by simp [GradientStop.dump]
  obtain ⟨hat, ⟨color, hget, hcolor⟩, -⟩ := parseStop_eq_ok h
  rw [hposition] at hat
  rw [htext] at hget
  obtain rfl := Option.some.inj hget
  exact ⟨(Except.ok.inj (Option.some.inj hat)).symm, (parseColor_eq_ok hcolor).2 _ rfl⟩

theorem ColorProgram.readAs {p : ColorProgram} {g : Compute.V1.ColorProgram}
    (h : parseColorProgramJson p.dump = .ok g) : p.ReadAs g := by
  obtain ⟨⟨name, hname, hwrap⟩, hcycles, hphase, hinterior, hinvalid, ⟨entries, hentries, hstops⟩,
    -⟩ := parsedFrom h
  have hwrapText : p.dump.get? "wrap" = some (.str p.wrap.text) := by simp [ColorProgram.dump]
  have hcyclesAt : p.dump.get? "cycles" = some (.float p.cycles) := by simp [ColorProgram.dump]
  have hphaseAt : p.dump.get? "phase" = some (.float p.phase) := by simp [ColorProgram.dump]
  have hinteriorAt : p.dump.get? "interiorColor" = some (.str p.interiorColor) := by
    simp [ColorProgram.dump]
  have hinvalidAt : p.dump.get? "invalidColor" = some (.str p.invalidColor) := by
    simp [ColorProgram.dump]
  refine ⟨?_, ?_, ?_, colorField_names hinteriorAt hinterior, colorField_names hinvalidAt hinvalid,
    ?_⟩
  · rw [Json.value_asStr hwrapText] at hname
    obtain rfl := Except.ok.inj hname
    exact wrap_readAs hwrap
  · rw [Json.value_asDouble hcyclesAt] at hcycles
    exact (Except.ok.inj hcycles).symm
  · rw [Json.value_asDouble hphaseAt] at hphase
    exact (Except.ok.inj hphase).symm
  · rw [stopEntries_dump] at hentries
    obtain rfl := Except.ok.inj hentries
    have hread := List.forall₂_map_left_iff.mp (parseStops_eq_ok hstops).2.1
    exact hread.imp fun stop read hstop => stop_readAs hstop.choose_spec

/-- A gradient is the same program on both sides, also after the bounds of a preview but for the
factor of its cycles, and a program that is read interpolates. -/
theorem colorPrograms_agree (text : PyText) :
    (∀ p : ColorProgram, ∃ g, parseColorProgramJson p.dump = .ok g ∧ p.ReadAs g ∧
      ∀ payload bounded, payload.get? "colorProgram" = some p.dump →
        boundPreviewPayload text payload = .ok bounded →
        ∃ n, previewInt text payload "iterations" 1 = .ok n ∧
          ∃ program, bounded.get? "colorProgram" = some program ∧
            parseColorProgramJson program = .ok { g with
              cycles := g.cycles *
                cyclesRatio payload (min (max 1 n) previewMaxIterations) (max 1 n) }) ∧
      ∀ v g, parseColorProgramJson v = .ok g → ∀ input, g.Interpolates input := by
  refine ⟨fun p => ?_, fun v g hparse input => (parsedFrom hparse).valid.interpolates input⟩
  obtain ⟨g, hparse⟩ := passes_parseColorProgramJson p
  have hcycles : p.dump.contains "cycles" = true := by simp [Json.contains, ColorProgram.dump]
  exact ⟨g, hparse, p.readAs hparse, fun payload bounded hprogram hbound =>
    gradient_bounded hprogram hparse hcycles hbound⟩

/-! ### Close stops -/

/-- A white stop and a black one at less than 1e-12. -/
def closeStops : Json :=
  .obj [("schemaVersion", .int 1), ("type", .str "gradient"),
    ("stops", .arr [.obj [("at", .int 0), ("color", .str "#000000")],
      .obj [("at", .float (1 / 2)), ("color", .str "#ffffff")],
      .obj [("at", .float (1 / 2 + 1 / 2 ^ 44)), ("color", .str "#000000")],
      .obj [("at", .int 1), ("color", .str "#000000")]])]

def closeProgram : Compute.V1.ColorProgram where
  stops := [⟨0, ⟨0, 0, 0⟩⟩, ⟨1 / 2, ⟨255, 255, 255⟩⟩, ⟨1 / 2 + 1 / 2 ^ 44, ⟨0, 0, 0⟩⟩, ⟨1, ⟨0, 0, 0⟩⟩]
  wrap := .clamp
  cycles := 1
  phase := 0
  interior := ⟨255, 255, 255⟩
  invalid := ⟨255, 0, 255⟩

theorem closeStops_read : parseColorProgramJson closeStops = .ok closeProgram := by decide +kernel

/-- A sample next to two stops that nearly meet. -/
theorem colorPrograms_agree_close : closeProgram.Interpolates (1 / 2 + 1 / 2 ^ 44) :=
  (colorPrograms_agree noText).2 closeStops closeProgram closeStops_read _

/-- At the black stop a program that is accepted is not black. -/
theorem close_stop_not_black :
    parseColorProgramJson closeStops = .ok closeProgram ∧
      ⟨1 / 2 + 1 / 2 ^ 44, ⟨0, 0, 0⟩⟩ ∈ closeProgram.stops ∧
      closeProgram.position (1 / 2 + 1 / 2 ^ 44) = 1 / 2 + 1 / 2 ^ 44 ∧
      closeProgram.colorize (some (1 / 2 + 1 / 2 ^ 44)) = ⟨241, 241, 241⟩ := by
  refine ⟨closeStops_read, ?_, ?_, ?_⟩
  · decide +kernel
  · decide +kernel
  · decide +kernel

end FractalStudio.Recipe
