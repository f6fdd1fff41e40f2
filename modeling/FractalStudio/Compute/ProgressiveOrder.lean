import FractalStudio.Lib.ClaimPool
import Mathlib.Data.Nat.Bitwise
import Mathlib.Data.List.Sort
import Mathlib.Tactic.Ring

/-!
# Progressive order of tiles

`map_field_progressive_order` of `map_kernel.hpp`: the tiles sorted by the interleaved bits of their
reversed coordinates, so that the first ones are spread over the frame. Ranks are 64-bit words and
the indices of the order are `int`s, so it takes at most `2^31` tiles.
-/
namespace FractalStudio.Morton

def shiftLeft (word n k : ℕ) : ℕ := n <<< k % 2 ^ word

/-- The bit at a place, 0 or 1. -/
def bitAt (n bit : ℕ) : ℕ := n >>> bit &&& 1

/-- One turn of the loop that reverses bits: the next bit comes in from below. -/
def pushBit (word value reversed bit : ℕ) : ℕ := shiftLeft word reversed 1 ||| bitAt value bit

def reverseBits (word value bits : ℕ) : ℕ := (List.range bits).foldl (pushBit word value) 0

/-- One turn of the loop that interleaves: the bits go to an even and an odd place. -/
def placeBits (word x y rank bit : ℕ) : ℕ :=
  rank ||| shiftLeft word (bitAt x bit) (2 * bit) ||| shiftLeft word (bitAt y bit) (2 * bit + 1)

def interleave (word x y bits : ℕ) : ℕ := (List.range bits).foldl (placeBits word x y) 0

end FractalStudio.Morton

namespace FractalStudio.Compute

open Morton

/-! ## The order -/

def mapProgressiveWorkRank (x y bits : Nat) : Nat :=
  interleave 64 (reverseBits 32 x bits) (reverseBits 32 y bits) bits

/-- The loop `while ((1u << bits) < extent) ++bits`; nothing where the shift leaves the word. -/
def coverBits (extent : Nat) : Nat → Nat → Option Nat
  | 0, _ => none
  | fuel + 1, bits =>
    if shiftLeft 32 1 bits < extent then coverBits extent fuel (bits + 1) else some bits

def wrapI32 (n : Int) : Int := n.bmod (2 ^ 32)

def tileIndex (columns x y : Nat) : Int := wrapI32 (wrapI32 (y * columns) + x)

/-- The tiles of a grid with their ranks, row by row. -/
def rankedTiles (columns rows bits : Nat) : List (Nat × Int) :=
  (List.range rows).flatMap fun y =>
    (List.range columns).map fun x => (mapProgressiveWorkRank x y bits, tileIndex columns x y)

/-- The comparison that is sorted by. -/
def rankLe (a b : Nat × Int) : Bool := a.1 ≤ b.1

def mapFieldProgressiveOrder (columns rows : Nat) (progressive : Bool) : Option (List Int) :=
  if columns = 0 ∨ rows = 0 then some []
  else if progressive then
    (coverBits (max columns rows) 32 0).map fun bits =>
      ((rankedTiles columns rows bits).mergeSort rankLe).map Prod.snd
  else some ((List.range (columns * rows)).map fun i : Nat => wrapI32 i)

section Bits
variable {extent fuel bits : Nat}

theorem coverBits_eq_some (hextent : extent ≤ 2 ^ 31) (hbits : bits + fuel = 32)
    (hfuel : 0 < fuel) :
    ∃ cover, coverBits extent fuel bits = some cover ∧ cover ≤ 31 ∧ extent ≤ 2 ^ cover := by
  induction fuel generalizing bits with
  | zero => omega
  | succ fuel ih =>
    have hshift : shiftLeft 32 1 bits = 2 ^ bits := by
      have hlt : 2 ^ bits < 2 ^ 32 := Nat.pow_lt_pow_right (by decide) (by omega)
      rw [shiftLeft, Nat.one_shiftLeft, Nat.mod_eq_of_lt hlt]
    rw [coverBits, hshift]
    by_cases hlt : 2 ^ bits < extent
    · rw [if_pos hlt]
      have hsmall : bits < 31 := by
        by_contra hge
        have hle : 2 ^ 31 ≤ 2 ^ bits := Nat.pow_le_pow_right (by decide) (by omega)
        omega
      exact ih (by omega) (by omega)
    · rw [if_neg hlt]
      exact ⟨bits, rfl, by omega, by omega⟩

end Bits

section Ranks
variable {columns rows bits x y x' y' : Nat}

theorem tileIndex_eq (hx : x < columns) (hy : y < rows) (hcount : columns * rows ≤ 2 ^ 31) :
    tileIndex columns x y = ((y * columns + x : Nat) : Int) := by
  have hlt : y * columns + x < columns * rows := by
    calc y * columns + x < y * columns + columns := by omega
      _ = (y + 1) * columns := by ring
      _ ≤ rows * columns := Nat.mul_le_mul_right _ hy
      _ = columns * rows := Nat.mul_comm _ _
  have hrow : ((y * columns : Nat) : Int).bmod (2 ^ 32) = (y * columns : Nat) :=
    Int.bmod_eq_of_le (by omega) (by omega)
  have hsum : ((y * columns + x : Nat) : Int).bmod (2 ^ 32) = (y * columns + x : Nat) :=
    Int.bmod_eq_of_le (by omega) (by omega)
  rw [tileIndex, wrapI32, wrapI32]
  push_cast at hrow hsum ⊢
  rw [hrow, hsum]

theorem mem_rankedTiles {a : Nat × Int} : a ∈ rankedTiles columns rows bits ↔
    ∃ y < rows, ∃ x < columns, (mapProgressiveWorkRank x y bits, tileIndex columns x y) = a := by
  simp only [rankedTiles, List.mem_flatMap, List.mem_map, List.mem_range]

theorem rankedTiles_indices (hcount : columns * rows ≤ 2 ^ 31) :
    (rankedTiles columns rows bits).map Prod.snd =
      (List.range (columns * rows)).map fun i : Nat => (i : Int) := by
  have hrows : ∀ k ≤ rows,
      ((List.range k).flatMap fun y => (List.range columns).map fun x => tileIndex columns x y) =
        (List.range (columns * k)).map fun i : Nat => (i : Int) := by
    intro k
    induction k with
    | zero => simp
    | succ k ih =>
      intro hk
      have hrow : (List.range columns).map (fun x => tileIndex columns x k) =
          ((List.range columns).map (columns * k + ·)).map fun i : Nat => (i : Int) := by
        rw [List.map_map]
        refine List.map_congr_left fun x hx => ?_
        rw [tileIndex_eq (List.mem_range.mp hx) hk hcount, Nat.mul_comm]
        rfl
      rw [List.range_succ, List.flatMap_append, ih (by omega), Nat.mul_succ, List.range_add,
        List.map_append, List.flatMap_singleton, hrow]
  rw [← hrows rows (Nat.le_refl _), rankedTiles, List.map_flatMap]
  simp only [List.map_map, Function.comp_def]

end Ranks

section Order
variable {columns rows : Nat}

theorem mapFieldProgressiveOrder_tiles (hcolumns : 1 ≤ columns) (hrows : 1 ≤ rows)
    (hcolumnsInt : columns < 2 ^ 31) (hrowsInt : rows < 2 ^ 31) :
    ∃ bits order, mapFieldProgressiveOrder columns rows true = some order ∧
      order.Perm ((rankedTiles columns rows bits).map Prod.snd) := by
  have hextent : max columns rows ≤ 2 ^ 31 := by omega
  obtain ⟨bits, hbits, -, -⟩ := coverBits_eq_some hextent (Nat.zero_add 32) (by decide)
  refine ⟨bits, ((rankedTiles columns rows bits).mergeSort rankLe).map Prod.snd, ?_, ?_⟩
  · rw [mapFieldProgressiveOrder, if_neg (by omega), if_pos rfl, hbits, Option.map_some]
  · exact (List.mergeSort_perm _ _).map Prod.snd

theorem length_rankedTiles (bits : Nat) : (rankedTiles columns rows bits).length = rows * columns := by
  simp [rankedTiles, List.length_flatMap]

theorem mapFieldProgressiveOrder_perm (hcolumns : 1 ≤ columns) (hrows : 1 ≤ rows)
    (hcolumnsInt : columns < 2 ^ 31) (hrowsInt : rows < 2 ^ 31)
    (hcount : columns * rows ≤ 2 ^ 31) :
    ∃ order, mapFieldProgressiveOrder columns rows true = some order ∧
      order.Perm ((List.range (columns * rows)).map fun i : Nat => (i : Int)) := by
  obtain ⟨bits, order, horder, hperm⟩ :=
    mapFieldProgressiveOrder_tiles hcolumns hrows hcolumnsInt hrowsInt
  rw [rankedTiles_indices hcount] at hperm
  exact ⟨order, horder, hperm⟩

end Order

/-- The index of a tile of a larger grid leaves the `int`s. -/
theorem squareGrid_order : ∃ order, mapFieldProgressiveOrder 65536 65536 true = some order ∧
    -2147483648 ∈ order ∧
    ¬ order.Perm ((List.range (65536 * 65536)).map fun i : Nat => (i : Int)) := by
  obtain ⟨bits, order, horder, hperm⟩ :=
    @mapFieldProgressiveOrder_tiles 65536 65536 (by omega) (by omega) (by omega) (by omega)
  have hindex : tileIndex 65536 0 32768 = -2147483648 := by decide
  have hmem : -2147483648 ∈ order := by
    rw [hperm.mem_iff, List.mem_map]
    refine ⟨_, mem_rankedTiles.mpr ⟨32768, by omega, 0, by omega, rfl⟩, hindex⟩
  refine ⟨order, horder, hmem, fun hall => ?_⟩
  obtain ⟨i, -, hi⟩ := List.mem_map.mp (hall.mem_iff.mp hmem)
  omega

end FractalStudio.Compute
