import FractalStudio.Compute.DirectSlice
import FractalStudio.Lib.Guards
import FractalStudio.Lib.JsonRead

/-!
# Fields of a Compute request

`parse_color_program_json` of a colour program, which throws an exception with a text, and
`resolveCenterCoord` of `routes_map.cpp`. Texts are read as numbers by `stod`, exactly. A name is
compared as a C string, up to its first NUL.
-/
namespace FractalStudio.Compute.V1

open FractalStudio.Guards

def cString (s : String) : String := String.ofList (s.toList.takeWhile (· ≠ '\x00'))

/-! ## Colours -/

/-- A digit of a colour; in a longer character there is none. -/
def hexDigit (c : Char) : Option Nat :=
  if '0' ≤ c ∧ c ≤ '9' then some (c.toNat - '0'.toNat)
  else if 'a' ≤ c ∧ c ≤ 'f' then some (10 + c.toNat - 'a'.toNat)
  else if 'A' ≤ c ∧ c ≤ 'F' then some (10 + c.toNat - 'A'.toNat)
  else none

structure ProgramColor where
  r : Nat
  g : Nat
  b : Nat

def parseColor (value : Json) (field : String) : Except String ProgramColor :=
  let error := field ++ " must be #RRGGBB"
  match value with
  | .str s =>
    match s.toList with
    | '#' :: digits =>
      match digits.map hexDigit with
      | [some r1, some r0, some g1, some g0, some b1, some b0] =>
        .ok ⟨r1 * 16 + r0, g1 * 16 + g0, b1 * 16 + b0⟩
      | _ => .error error
    | _ => .error error
  | _ => .error error

def rejectUnknownFields (value : Json) (allowed : List String) (objectName : String) :
    Except String Unit :=
  match value with
  | .obj fields => fields.forM fun e =>
    rejectIf (e.1 ∉ allowed) (objectName ++ " contains unknown field: " ++ e.1)
  | _ => .ok ()

structure ProgramColorStop where
  at' : ℚ
  color : ProgramColor

/-- The position and the colour of a stop, which lies past `previous`. -/
def parseStop (previous : ℚ) (stop : Json) : Except String ProgramColorStop := do
  rejectIf (stop.isObj = false) "color stop must be an object"
  rejectUnknownFields stop ["at", "color"] "color stop"
  match (stop.get? "at").map Json.asDouble, stop.get? "color" with
    | some (.ok position), some color => do
      rejectIf (position < 0 ∨ 1 < position ∨ position ≤ previous)
        "color stop positions must be finite and strictly increasing in [0,1]"
      let color ← parseColor color "color stop color"
      return ⟨position, color⟩
    | _, _ => throw "color stop requires numeric at and #RRGGBB color"

def parseStops (previous : ℚ) : List Json → Except String (List ProgramColorStop)
  | [] => .ok []
  | stop :: rest => do
    let first ← parseStop previous stop
    let stops ← parseStops first.at' rest
    return first :: stops

inductive ColorWrap
  | clamp | repeat' | mirror
deriving DecidableEq

structure ColorProgram where
  stops : List ProgramColorStop
  wrap : ColorWrap
  cycles : ℚ
  phase : ℚ
  interior : ProgramColor
  invalid : ProgramColor

def parseWrap : String → Except String ColorWrap
  | "repeat" => .ok .repeat'
  | "mirror" => .ok .mirror
  | "clamp" => .ok .clamp
  | _ => .error "colorProgram.wrap must be clamp, repeat, or mirror"

/-- A colour with a default; it is read where the field is there. -/
def colorField (value : Json) (field : String) (default : ProgramColor) :
    Except String ProgramColor :=
  match value.get? field with
  | some v => parseColor v ("colorProgram." ++ field)
  | none => .ok default

/-- The array of the stops. -/
def stopEntries (value : Json) : Except String (List Json) :=
  match value.get? "stops" with
  | some (.arr entries) =>
    if entries.length < 2 ∨ 16 < entries.length then
      .error "colorProgram.stops must contain 2..16 entries"
    else .ok entries
  | _ => .error "colorProgram.stops must contain 2..16 entries"

def parseColorProgramJson (value : Json) : Except String ColorProgram := do
  rejectIf (value.isObj = false) "colorProgram must be an object"
  rejectUnknownFields value
    ["schemaVersion", "type", "interpolation", "wrap", "cycles", "phase", "interiorColor",
      "invalidColor", "stops"] "colorProgram"
  let schemaVersion ← value.value (Json.asInt 32) "schemaVersion" 0
  rejectIf (schemaVersion ≠ 1) "colorProgram.schemaVersion must be 1"
  let type ← value.value Json.asStr "type" ""
  rejectIf (type ≠ "gradient") "colorProgram.type must be gradient"
  let interpolation ← value.value Json.asStr "interpolation" "rgb"
  rejectIf (interpolation ≠ "rgb") "colorProgram.interpolation must be rgb"
  let wrapName ← value.value Json.asStr "wrap" "clamp"
  let wrap ← parseWrap wrapName
  let cycles ← value.value Json.asDouble "cycles" 1
  let phase ← value.value Json.asDouble "phase" 0
  rejectIf (cycles ≤ 0 ∨ 256 < cycles) "colorProgram.cycles must be finite and in (0,256]"
  let interior ← colorField value "interiorColor" ⟨255, 255, 255⟩
  let invalid ← colorField value "invalidColor" ⟨255, 0, 255⟩
  let entries ← stopEntries value
  let stops ← parseStops (-1) entries
  rejectIf (stops.head?.map ProgramColorStop.at' ≠ some 0 ∨
      stops.getLast?.map ProgramColorStop.at' ≠ some 1)
    "colorProgram stops must start at 0 and end at 1"
  return ⟨stops, wrap, cycles, phase, interior, invalid⟩

/-! ## Numbers from texts -/

/-- The digits of a base that a text begins with, and the rest. -/
def digitsIn (base : Nat) : List Char → List Nat × List Char
  | [] => ([], [])
  | c :: cs =>
    match (hexDigit c).filter (· < base) with
    | some d => (d :: (digitsIn base cs).1, (digitsIn base cs).2)
    | none => ([], c :: cs)

/-- Whether a text begins with a minus, and the text after its sign. -/
def signed : List Char → Bool × List Char
  | '-' :: cs => (true, cs)
  | '+' :: cs => (false, cs)
  | cs => (false, cs)

def exponentIn (marker : Char) : List Char → Int
  | [] => 0
  | c :: cs =>
    let n : Int := Nat.ofDigits 10 (digitsIn 10 (signed cs).2).1.reverse
    if c ≠ marker then 0 else if (signed cs).1 then -n else n

/-- The number without a sign that a text in small letters begins with. -/
def magnitude (base : Nat) (marker : Char) (radix : ℚ) (cs : List Char) : Option ℚ :=
  let whole := digitsIn base cs
  let fraction := match whole.2 with
    | '.' :: cs => digitsIn base cs
    | cs => ([], cs)
  let digits := whole.1 ++ fraction.1
  if digits = [] then none
  else some (Nat.ofDigits base digits.reverse / (base : ℚ) ^ fraction.1.length *
    radix ^ exponentIn marker fraction.2)

/-- A size that a double does not hold, or only with a loss below its smallest normal number. -/
def outOfRange (q : ℚ) : Prop :=
  2 ^ 1024 - 2 ^ 970 ≤ q ∨ (0 < q ∧ q < 1 / 2 ^ 1022 ∧ (q * 2 ^ 1074).den ≠ 1)

instance (q : ℚ) : Decidable (outOfRange q) := inferInstanceAs (Decidable (_ ∨ _))

inductive Stod
  | number (q : ℚ)
  | notFinite
  | threw

def stod (s : String) : Stod :=
  let text := signed ((cString s).toList.dropWhile isSpace)
  let word := text.2.map Char.toLower
  if "inf".toList.isPrefixOf word || "nan".toList.isPrefixOf word then .notFinite
  else
    let size := match word with
      | '0' :: 'x' :: digits => some ((magnitude 16 'p' 2 digits).getD 0)
      | word => magnitude 10 'e' 10 word
    match size with
    | none => .threw
    | some q => if outOfRange q then .threw else .number (if text.1 then -q else q)

def resolveCenterCoord (preciseStr : String) (fallback : ℚ) : Option ℚ :=
  if preciseStr = "" then some fallback
  else match stod preciseStr with
    | .number q => some q
    | .notFinite => none
    | .threw => some fallback

end FractalStudio.Compute.V1
