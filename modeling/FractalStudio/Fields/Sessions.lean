import FractalStudio.Lib.Slots
import FractalStudio.Lib.Transition
import Mathlib.Data.List.Sort

/-!
# Interactive field sessions

The sessions of `routes_map.cpp` and what the publication of a rectangle does to one, under its lock.
A session holds all of its buffers with the reservation for them, and counts the pixels that it has
published.
-/
namespace FractalStudio.Fields

open Transition

/-- `INTERACTIVE_FIELD_BYTES_PER_PIXEL`: an iteration count, a norm and a publication flag. -/
def bytesPerPixel : Nat := 4 + 4 + 1

inductive FieldState
  | running | completed | cancelled | failed
  deriving DecidableEq

/-- What is used of `InteractiveFieldStartInput`. -/
structure Input where
  width : Nat
  height : Nat
  reservedBytes : Nat
  deriving DecidableEq

/-- What the publication of a rectangle and a snapshot read of a session. -/
structure Session where
  width : Nat
  height : Nat
  reservedBytes : Nat
  /-- `field` has a count and a norm for each pixel. -/
  allocated : Bool
  published : List Bool
  state : FieldState
  revision : Nat
  completedPixels : Nat
  deriving DecidableEq

namespace Session
variable (q : Session)

def pixels : Nat := q.width * q.height

/-- One pixel of `publishInteractiveFieldRect`. -/
def mark (p : List Bool × Nat) (i : Nat) : List Bool × Nat :=
  if p.1[i]? = some false then (p.1.set i true, p.2 + 1) else p

/-- The pixels of a rectangle. -/
def offsets (fullW x y width height : Nat) : List Nat :=
  (List.range height).flatMap fun row =>
    (List.range width).map fun col => (y + row) * fullW + x + col

/-- `publishInteractiveFieldRect` -/
def publishRect (x y width height : Int) : Session :=
  if width ≤ 0 ∨ height ≤ 0 ∨ q.state ≠ .running ∨ x < 0 ∨ y < 0 ∨ q.width < x + width ∨
      q.height < y + height ∨ q.allocated = false then q
  else
    let p := (offsets q.width x.toNat y.toNat width.toNat height.toNat).foldl mark
      (q.published, q.completedPixels)
    { q with published := p.1, completedPixels := p.2, revision := q.revision + 1 }

end Session

def Input.session (input : Input) : Session where
  width := input.width
  height := input.height
  reservedBytes := input.reservedBytes
  allocated := false
  published := List.replicate (input.width * input.height) false
  state := .running
  revision := 0
  completedPixels := 0

/-! ## Publication -/

theorem count_set_true {l : List Bool} {i : Nat} (h : l[i]? = some false) :
    (l.set i true).count true = l.count true + 1 := by
  induction l generalizing i with
  | nil => cases h
  | cons b l ih =>
    cases i with
    | zero =>
      obtain rfl : b = false := Option.some.inj h
      simp
    | succ i =>
      rw [List.set_cons_succ, List.count_cons, List.count_cons, ih (by simpa using h)]
      omega

namespace Session
variable {p : List Bool × Nat} {i j : Nat}

theorem length_mark (p : List Bool × Nat) (i : Nat) : (mark p i).1.length = p.1.length := by
  unfold mark
  split
  · exact List.length_set
  · rfl

theorem count_mark (h : p.2 = p.1.count true) : (mark p i).2 = (mark p i).1.count true := by
  unfold mark
  split
  · next hi => exact (congrArg (· + 1) h).trans (count_set_true hi).symm
  · exact h

theorem mark_keeps (h : p.1[j]? = some true) : (mark p i).1[j]? = some true := by
  unfold mark
  split
  · next hi =>
    have hij : i ≠ j := by
      rintro rfl
      rw [h] at hi
      cases hi
    rw [List.getElem?_set_ne hij]
    exact h
  · exact h

theorem mark_marks (h : i < p.1.length) : (mark p i).1[i]? = some true := by
  unfold mark
  split
  · exact List.getElem?_set_self h
  · next hi =>
    rw [List.getElem?_eq_getElem h] at hi ⊢
    cases hb : p.1[i] with
    | false => exact absurd (congrArg some hb) hi
    | true => rfl

theorem length_foldl_mark (is : List Nat) (p : List Bool × Nat) :
    (is.foldl mark p).1.length = p.1.length := by
  induction is generalizing p with
  | nil => rfl
  | cons i is ih => exact (ih (mark p i)).trans (length_mark p i)

theorem count_foldl_mark (is : List Nat) (h : p.2 = p.1.count true) :
    (is.foldl mark p).2 = (is.foldl mark p).1.count true := by
  induction is generalizing p with
  | nil => exact h
  | cons i is ih => exact ih (count_mark h)

theorem foldl_mark_keeps (is : List Nat) (h : p.1[j]? = some true) :
    (is.foldl mark p).1[j]? = some true := by
  induction is generalizing p with
  | nil => exact h
  | cons i is ih => exact ih (mark_keeps h)

theorem foldl_mark_marks {is : List Nat} (hj : j ∈ is) (h : j < p.1.length) :
    (is.foldl mark p).1[j]? = some true := by
  induction is generalizing p with
  | nil => cases hj
  | cons i is ih =>
    rcases List.mem_cons.mp hj with rfl | hj
    · exact foldl_mark_keeps is (mark_marks h)
    · exact ih hj (by rwa [length_mark])

/-- The session holds its buffers, with their reservation. -/
def Whole (q : Session) : Prop :=
  q.published.length = q.pixels ∧ q.completedPixels = q.published.count true ∧
    q.reservedBytes = q.pixels * bytesPerPixel

variable {q : Session}

theorem Whole.marks (h : q.Whole) (is : List Nat) (revision : Nat) :
    ({ q with
      published := (is.foldl mark (q.published, q.completedPixels)).1
      completedPixels := (is.foldl mark (q.published, q.completedPixels)).2
      revision := revision } : Session).Whole :=
  ⟨(length_foldl_mark is _).trans h.1, count_foldl_mark is h.2.1, h.2.2⟩

end Session

end FractalStudio.Fields
