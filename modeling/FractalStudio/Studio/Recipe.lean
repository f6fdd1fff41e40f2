import FractalStudio.Lib.Guards
import FractalStudio.Lib.JsonRead
import Mathlib.Tactic.NormNum

/-!
# Colour programs of a recipe

`ColorProgram` of `studio/models.py`, whose values have passed the checks of their fields, and the
numbers that a preview's bounds read. A number is the rational that a finite double stands for.
-/
namespace FractalStudio.Recipe

def isHexDigit (c : Char) : Bool :=
  c.isDigit || ('a' ≤ c && c ≤ 'f') || ('A' ≤ c && c ≤ 'F')

/-- `^#[0-9A-Fa-f]{6}$` -/
def matchesColor (s : String) : Bool :=
  match s.toList with
  | '#' :: cs => cs.length = 6 && cs.all isHexDigit
  | _ => false

inductive Wrap
  | clamp | repeat' | mirror
deriving DecidableEq

def Wrap.text : Wrap → String
  | .clamp => "clamp"
  | .repeat' => "repeat"
  | .mirror => "mirror"

structure GradientStop where
  at' : ℚ
  color : String
  at_bounds : 0 ≤ at' ∧ at' ≤ 1
  color_pattern : matchesColor color = true

def GradientStop.dump (s : GradientStop) : Json :=
  .ofEntries [("at", some (.float s.at')), ("color", some (.str s.color))]

structure ColorProgram where
  wrap : Wrap
  cycles : ℚ
  phase : ℚ
  interiorColor : String
  invalidColor : String
  stops : List GradientStop
  cycles_bounds : 0 < cycles ∧ cycles ≤ 256
  interiorColor_pattern : matchesColor interiorColor = true
  invalidColor_pattern : matchesColor invalidColor = true
  stops_length : 2 ≤ stops.length ∧ stops.length ≤ 16
  /-- `validate_stops` -/
  stops_ends : stops.head?.map GradientStop.at' = some 0 ∧
    stops.getLast?.map GradientStop.at' = some 1
  stops_increasing : (stops.map GradientStop.at').IsChain (· < ·)

def ColorProgram.dump (p : ColorProgram) : Json :=
  .ofEntries
    [("schemaVersion", some (.int 1)), ("type", some (.str "gradient")),
      ("interpolation", some (.str "rgb")), ("wrap", some (.str p.wrap.text)),
      ("cycles", some (.float p.cycles)), ("phase", some (.float p.phase)),
      ("interiorColor", some (.str p.interiorColor)),
      ("invalidColor", some (.str p.invalidColor)),
      ("stops", some (.arr (p.stops.map GradientStop.dump)))]

def renderMinScale : ℚ := 3 / 2 ^ 41
def renderMaxScale : ℚ := 1000000000

/-- `int(value)` of a number or a truth value. -/
def pyInt : Json → Option Int
  | .int n => some n
  | .float q => some (Json.truncate q)
  | .bool b => some (if b then 1 else 0)
  | _ => none

/-- `float(value)` of a number or a truth value. -/
def pyFloat : Json → Option ℚ
  | .int n => some (Json.doubleOfInt n)
  | .float q => some q
  | .bool b => some (if b then 1 else 0)
  | _ => none

end FractalStudio.Recipe
