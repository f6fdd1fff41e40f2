import FractalStudio.Compute.FixedRange
import FractalStudio.Compute.RequestValidation
import FractalStudio.Lib.Interpolation

/-!
# Colour programs

`color_program.cpp` over exact rationals: a value is wrapped into the stops, and the channels are
mixed between its two neighbours. The distance of the neighbours counts as at least 1e-12.
-/
namespace FractalStudio.Compute.V1

open FractalStudio.Guards FractalStudio.Interpolation

deriving instance DecidableEq for ProgramColor, ProgramColorStop, ColorProgram

/-- `std::fmod` -/
def fmod (x y : ℚ) : ℚ := x - (if 0 ≤ x / y then ⌊x / y⌋ else ⌈x / y⌉) * y

def wrapped (value : ℚ) : ColorWrap → ℚ
  | .clamp => max 0 (min value 1)
  | .repeat' =>
    let result := value - ⌊value⌋
    if result < 0 then result + 1 else result
  | .mirror =>
    let result := fmod value 2
    let result := if result < 0 then result + 2 else result
    if result ≤ 1 then result else 2 - result

def mixChannel (left right : Nat) (amount : ℚ) : Nat :=
  (max 0 (min (llround (left * (1 - amount) + right * amount)) 255)).toNat

def ProgramColor.mix (left right : ProgramColor) (amount : ℚ) : ProgramColor :=
  ⟨mixChannel left.r right.r amount, mixChannel left.g right.g amount,
    mixChannel left.b right.b amount⟩

/-- `1e-12` -/
def minSpan : ℚ := 1 / 10 ^ 12

/-- How far a value lies between two stops. -/
def mixAmount (left right : ProgramColorStop) (value : ℚ) : ℚ :=
  max 0 (min ((value - left.at') / max minSpan (right.at' - left.at')) 1)

/-- The stops after the first, from the one before them. -/
def mixFrom (value : ℚ) : ProgramColorStop → List ProgramColorStop → ProgramColor
  | last, [] => last.color
  | left, right :: rest =>
    if value ≤ right.at' then left.color.mix right.color (mixAmount left right value)
    else mixFrom value right rest

namespace ColorProgram

def position (p : ColorProgram) (input : ℚ) : ℚ := wrapped (input * p.cycles + p.phase) p.wrap

/-- `colorize`; there is no input where it is not finite. -/
def colorize (p : ColorProgram) (input : Option ℚ) : ProgramColor :=
  match input, p.stops with
  | some input, first :: second :: rest =>
    let value := p.position input
    if value ≤ first.at' then first.color else mixFrom value first (second :: rest)
  | _, _ => p.invalid

end ColorProgram

theorem fmod_two (v : ℚ) : (if fmod v 2 < 0 then fmod v 2 + 2 else fmod v 2) =
    2 * Int.fract (v / 2) := by
  have hfract : Int.fract (v / 2) = v / 2 - ⌊v / 2⌋ := rfl
  have hnonneg := Int.fract_nonneg (v / 2)
  rw [fmod]
  by_cases h : 0 ≤ v / 2
  · rw [if_pos h, if_neg (by linarith)]
    linarith
  · rw [if_neg h]
    by_cases hint : Int.fract (v / 2) = 0
    · have hfloor : ((⌊v / 2⌋ : ℤ) : ℚ) = v / 2 := by linarith
      have hceil : ⌈v / 2⌉ = ⌊v / 2⌋ := by rw [← hfloor, Int.ceil_intCast, Int.floor_intCast]
      rw [hceil, if_neg (by linarith)]
      linarith
    · have hceil := Int.ceil_sub_self_eq hint
      have hlt := Int.fract_lt_one (v / 2)
      rw [if_pos (by linarith)]
      linarith

/-- The whole line wrapped into the stops. -/
def ColorWrap.wave (value : ℚ) : ColorWrap → ℚ
  | .clamp => max 0 (min value 1)
  | .repeat' => Int.fract value
  | .mirror => triangleWave value

theorem wrapped_eq (value : ℚ) (wrap : ColorWrap) : wrapped value wrap = wrap.wave value := by
  cases wrap with
  | clamp => rfl
  | repeat' =>
    have hnonneg : ¬ Int.fract value < 0 := not_lt.mpr (Int.fract_nonneg value)
    exact if_neg hnonneg
  | mirror =>
    rw [ColorWrap.wave, triangleWave_eq, ← fmod_two]
    rfl

theorem wave_mem (value : ℚ) (wrap : ColorWrap) : 0 ≤ wrap.wave value ∧ wrap.wave value ≤ 1 := by
  cases wrap with
  | clamp => exact ⟨le_max_left _ _, max_le zero_le_one (min_le_right _ _)⟩
  | repeat' => exact ⟨Int.fract_nonneg value, (Int.fract_lt_one value).le⟩
  | mirror => exact triangleWave_mem value

/-! ## Channels -/

def ProgramColor.channels : List (ProgramColor → Nat) := [ProgramColor.r, ProgramColor.g, ProgramColor.b]

theorem llround_of_nonneg {x : ℚ} (h : 0 ≤ x) : llround x = round x := by
  rw [llround, if_pos h, round_eq]

theorem mixChannel_eq {left right : Nat} {amount : ℚ} (hleft : left ≤ 255) (hright : right ≤ 255)
    (hlow : 0 ≤ amount) (hhigh : amount ≤ 1) :
    (mixChannel left right amount : ℤ) = round (AffineMap.lineMap (left : ℚ) right amount) := by
  have hmixed : (left : ℚ) * (1 - amount) + right * amount =
      AffineMap.lineMap (left : ℚ) right amount := by
    rw [AffineMap.lineMap_apply_ring]
    ring
  have hnonneg : 0 ≤ AffineMap.lineMap (left : ℚ) right amount :=
    (le_min (Nat.cast_nonneg left) (Nat.cast_nonneg right)).trans
      (lineMap_between (left : ℚ) right hlow hhigh).1
  obtain ⟨hmin, hmax⟩ := round_lineMap_between (K := ℚ) left right hlow hhigh
  simp only [Int.cast_natCast] at hmin hmax
  rw [mixChannel, hmixed, llround_of_nonneg hnonneg]
  omega

theorem mix_channel {left right : ProgramColor} (amount : ℚ) {channel : ProgramColor → Nat}
    (h : channel ∈ ProgramColor.channels) :
    channel (left.mix right amount) = mixChannel (channel left) (channel right) amount := by
  simp only [ProgramColor.channels, List.mem_cons, List.not_mem_nil, or_false] at h
  obtain rfl | rfl | rfl := h <;> rfl

theorem ProgramColor.ext_channels {a b : ProgramColor}
    (h : ∀ channel ∈ ProgramColor.channels, channel a = channel b) : a = b := by
  obtain ⟨r, g, b'⟩ := a
  obtain ⟨r', g', b''⟩ := b
  have hr : r = r' := h ProgramColor.r (by simp [channels])
  have hg : g = g' := h ProgramColor.g (by simp [channels])
  have hb : b' = b'' := h ProgramColor.b (by simp [channels])
  rw [hr, hg, hb]

section Stops
variable {value : ℚ} {left right : ProgramColorStop} {first : ProgramColorStop}
  {rest : List ProgramColorStop}

theorem minSpan_pos : 0 < minSpan := by norm_num [minSpan]

theorem mixAmount_eq (hlow : left.at' ≤ value) (hhigh : value ≤ right.at') :
    mixAmount left right value = (value - left.at') / max minSpan (right.at' - left.at') ∧
      0 ≤ mixAmount left right value ∧ mixAmount left right value ≤ 1 := by
  have hspan : 0 < max minSpan (right.at' - left.at') := lt_max_of_lt_left minSpan_pos
  have hnonneg : 0 ≤ (value - left.at') / max minSpan (right.at' - left.at') :=
    div_nonneg (by linarith) hspan.le
  have hle : (value - left.at') / max minSpan (right.at' - left.at') ≤ 1 := by
    rw [div_le_one hspan]
    exact le_max_of_le_right (by linarith)
  rw [mixAmount, min_eq_left hle, max_eq_right hnonneg]
  exact ⟨rfl, hnonneg, hle⟩

theorem mixFrom_eq (hchain : ((first :: rest).map ProgramColorStop.at').IsChain (· < ·))
    (h : Bracket ProgramColorStop.at' value left right (first :: rest)) :
    mixFrom value first rest = left.color.mix right.color (mixAmount left right value) := by
  induction rest generalizing first with
  | nil =>
    have hlength := h.1.length_le
    simp at hlength
  | cons second rest ih =>
    rw [List.map_cons, List.map_cons, List.isChain_cons_cons] at hchain
    rw [mixFrom]
    obtain ⟨rfl, rfl, -, hhigh⟩ | htail := bracket_cons.mp h
    · rw [if_pos hhigh]
    · -- the left neighbour is not before the second stop
      have hsecond : second.at' ≤ left.at' := by
        have hsorted : (second.at' :: rest.map ProgramColorStop.at').Pairwise (· < ·) :=
          List.isChain_iff_pairwise.mp hchain.2
        have hmem : left ∈ second :: rest := htail.1.subset List.mem_cons_self
        obtain rfl | hrest := List.mem_cons.mp hmem
        · exact le_refl _
        · exact ((List.pairwise_cons.mp hsorted).1 _ (List.mem_map_of_mem hrest)).le
      rw [if_neg (by linarith [htail.2.1])]
      exact ih hchain.2 htail

end Stops

/-! ## Programs -/

structure ColorProgram.Valid (p : ColorProgram) : Prop where
  first : p.stops.head?.map ProgramColorStop.at' = some 0
  last : p.stops.getLast?.map ProgramColorStop.at' = some 1
  increasing : (p.stops.map ProgramColorStop.at').IsChain (· < ·)
  bytes : ∀ stop ∈ p.stops, ∀ channel ∈ ProgramColor.channels, channel stop.color ≤ 255

/-- The colour of an input is interpolated between the neighbours of its position, whose distance
counts as at least 1e-12. -/
structure ColorProgram.Interpolates (p : ColorProgram) (input : ℚ) : Prop where
  position : p.position input = p.wrap.wave (input * p.cycles + p.phase)
  bracketed : p.position input = 0 ∨
    ∃ left right, Bracket ProgramColorStop.at' (p.position input) left right p.stops
  mixed : ∀ left right, Bracket ProgramColorStop.at' (p.position input) left right p.stops →
    ∀ channel ∈ ProgramColor.channels,
      (channel (p.colorize (some input)) : ℤ) = round (AffineMap.lineMap (channel left.color : ℚ)
        (channel right.color) ((p.position input - left.at') / max minSpan (right.at' - left.at')))
  linear : ∀ left right, Bracket ProgramColorStop.at' (p.position input) left right p.stops →
    minSpan ≤ right.at' - left.at' → ∀ channel ∈ ProgramColor.channels,
      (channel (p.colorize (some input)) : ℤ) = round (AffineMap.lineMap (channel left.color : ℚ)
        (channel right.color) ((p.position input - left.at') / (right.at' - left.at')))
  between : ∀ left right, Bracket ProgramColorStop.at' (p.position input) left right p.stops →
    ∀ channel ∈ ProgramColor.channels,
      min (channel left.color) (channel right.color) ≤ channel (p.colorize (some input)) ∧
        channel (p.colorize (some input)) ≤ max (channel left.color) (channel right.color)
  atStop : ∀ stop ∈ p.stops, p.position input = stop.at' →
    (∀ left, [left, stop] <:+: p.stops → minSpan ≤ stop.at' - left.at') →
      p.colorize (some input) = stop.color

namespace ColorProgram.Valid
variable {p : ColorProgram}

theorem stops_eq (h : p.Valid) : ∃ first second rest, p.stops = first :: second :: rest ∧
    first.at' = 0 ∧ ∃ stop ∈ second :: rest, stop.at' = 1 := by
  obtain ⟨hfirst, hlast, -, -⟩ := h
  match hstops : p.stops with
  | [] =>
    rw [hstops] at hfirst
    cases hfirst
  | [stop] =>
    rw [hstops] at hfirst hlast
    have hzero : stop.at' = 0 := Option.some.inj hfirst
    have hone : stop.at' = 1 := Option.some.inj hlast
    exact absurd (hzero.symm.trans hone) zero_ne_one
  | first :: second :: rest =>
    rw [hstops] at hfirst hlast
    obtain ⟨stop, hstop, hone⟩ := Option.map_eq_some_iff.mp hlast
    rw [List.getLast?_cons_cons] at hstop
    exact ⟨first, second, rest, rfl, Option.some.inj hfirst, stop, List.mem_of_getLast? hstop, hone⟩

theorem colorize_eq {first second : ProgramColorStop} {rest : List ProgramColorStop}
    (h : p.stops = first :: second :: rest) (input : ℚ) :
    p.colorize (some input) = if p.position input ≤ first.at' then first.color
      else mixFrom (p.position input) first (second :: rest) := by
  unfold colorize
  rw [h]

theorem colorize_first (h : p.Valid) {input : ℚ} (hzero : p.position input = 0)
    {stop : ProgramColorStop} (hstop : stop ∈ p.stops.head?) : p.colorize (some input) = stop.color := by
  obtain ⟨first, second, rest, hstops, hfirst, -⟩ := h.stops_eq
  rw [hstops] at hstop
  obtain rfl := Option.some.inj hstop
  rw [colorize_eq hstops, if_pos (by rw [hzero, hfirst])]

theorem colorize_bracket (h : p.Valid) {input : ℚ} {left right : ProgramColorStop}
    (hbracket : Bracket ProgramColorStop.at' (p.position input) left right p.stops) :
    p.colorize (some input) =
      left.color.mix right.color (mixAmount left right (p.position input)) := by
  obtain ⟨first, second, rest, hstops, hfirst, -⟩ := h.stops_eq
  have hchain := h.increasing
  rw [hstops] at hbracket hchain
  have hpast : first.at' < p.position input := by
    have hsorted : (first.at' :: (second :: rest).map ProgramColorStop.at').Pairwise (· < ·) :=
      List.isChain_iff_pairwise.mp hchain
    obtain rfl | hrest := List.mem_cons.mp (hbracket.1.subset List.mem_cons_self)
    · exact hbracket.2.1
    · exact ((List.pairwise_cons.mp hsorted).1 _ (List.mem_map_of_mem hrest)).trans hbracket.2.1
  rw [colorize_eq hstops, if_neg (not_le.mpr hpast)]
  exact mixFrom_eq hchain hbracket

theorem channel_eq (h : p.Valid) {input : ℚ} {left right : ProgramColorStop}
    (hbracket : Bracket ProgramColorStop.at' (p.position input) left right p.stops)
    {channel : ProgramColor → Nat} (hchannel : channel ∈ ProgramColor.channels) :
    (channel (p.colorize (some input)) : ℤ) = round (AffineMap.lineMap (channel left.color : ℚ)
      (channel right.color) (mixAmount left right (p.position input))) := by
  obtain ⟨-, hlow, hhigh⟩ := mixAmount_eq hbracket.2.1.le hbracket.2.2
  have hleft := h.bytes left (hbracket.1.subset List.mem_cons_self) channel hchannel
  have hright := h.bytes right
    (hbracket.1.subset (List.mem_cons_of_mem _ (List.mem_singleton_self right))) channel hchannel
  rw [h.colorize_bracket hbracket, mix_channel _ hchannel]
  exact mixChannel_eq hleft hright hlow hhigh

/-- A valid program interpolates at every input. -/
theorem interpolates (h : p.Valid) (input : ℚ) : p.Interpolates input where
  position := wrapped_eq _ _
  bracketed := by
    obtain ⟨first, second, rest, hstops, hfirst, stop, hstop, hone⟩ := h.stops_eq
    have hposition : p.position input = p.wrap.wave (input * p.cycles + p.phase) := wrapped_eq _ _
    obtain ⟨hlow, hhigh⟩ := wave_mem (input * p.cycles + p.phase) p.wrap
    rw [← hposition] at hlow hhigh
    obtain hzero | hpos := hlow.eq_or_lt
    · exact .inl hzero.symm
    · right
      rw [hstops]
      exact exists_bracket (by rw [hfirst]; exact hpos) ⟨stop, hstop, by rw [hone]; exact hhigh⟩
  mixed left right hbracket channel hchannel := by
    rw [h.channel_eq hbracket hchannel, (mixAmount_eq hbracket.2.1.le hbracket.2.2).1]
  linear left right hbracket hspan channel hchannel := by
    rw [h.channel_eq hbracket hchannel, (mixAmount_eq hbracket.2.1.le hbracket.2.2).1,
      max_eq_right hspan]
  between left right hbracket channel hchannel := by
    obtain ⟨-, hlow, hhigh⟩ := mixAmount_eq hbracket.2.1.le hbracket.2.2
    obtain ⟨hmin, hmax⟩ := round_lineMap_between (K := ℚ) (channel left.color) (channel right.color)
      hlow hhigh
    simp only [Int.cast_natCast] at hmin hmax
    rw [← h.channel_eq hbracket hchannel] at hmin hmax
    omega
  atStop stop hstop hat hspans := by
    obtain ⟨first, second, rest, hstops, hfirst, -⟩ := h.stops_eq
    rw [hstops] at hstop
    obtain rfl | hrest := List.mem_cons.mp hstop
    · exact h.colorize_first (hat.trans hfirst) (by rw [hstops]; rfl)
    · obtain ⟨left, hin⟩ : ∃ left, [left, stop] <:+: first :: second :: rest := exists_before hrest
      rw [← hstops] at hin
      have hspan := hspans left hin
      have hgap : 0 < stop.at' - left.at' := minSpan_pos.trans_le hspan
      have hbracket : Bracket ProgramColorStop.at' (p.position input) left stop p.stops :=
        ⟨hin, by rw [hat]; linarith, hat.le⟩
      have hamount : mixAmount left stop (p.position input) = 1 := by
        rw [(mixAmount_eq hbracket.2.1.le hbracket.2.2).1, max_eq_right hspan, hat,
          div_self hgap.ne']
      refine ProgramColor.ext_channels fun channel hchannel => ?_
      have hchannelEq := h.channel_eq hbracket hchannel
      rw [hamount, AffineMap.lineMap_apply_one, round_natCast] at hchannelEq
      exact Int.natCast_inj.mp hchannelEq

end ColorProgram.Valid

end FractalStudio.Compute.V1
