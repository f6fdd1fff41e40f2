import Mathlib.Algebra.Order.Ring.Nat
import Mathlib.Data.List.Basic
import Mathlib.Data.List.Induction

/-!
# Little-endian words and records of a fixed size

A 32-bit word as four bytes, reading it back from the front of a byte list, and where the
records of a list stand when each has the same size.
-/
namespace FractalStudio.Bytes

/-- Four bytes, the low one first; what does not fit in 32 bits is dropped. -/
def le32 (n : Nat) : List UInt8 :=
  [UInt8.ofNat n, UInt8.ofNat (n / 2 ^ 8), UInt8.ofNat (n / 2 ^ 16), UInt8.ofNat (n / 2 ^ 24)]

/-- The word at the front. -/
def word32 : List UInt8 → Option Nat
  | a :: b :: c :: d :: _ =>
    some (a.toNat + 2 ^ 8 * b.toNat + 2 ^ 16 * c.toNat + 2 ^ 24 * d.toNat)
  | _ => none

@[simp] theorem length_le32 (n : Nat) : (le32 n).length = 4 := rfl

theorem word32_le32 (n : Nat) (rest : List UInt8) :
    word32 (le32 n ++ rest) = some (n % 2 ^ 32) := by
  show some _ = some _
  congr 1
  simp only [UInt8.toNat_ofNat']
  omega

theorem word32_le32_of_lt {n : Nat} (h : n < 2 ^ 32) (rest : List UInt8) :
    word32 (le32 n ++ rest) = some n := by
  rw [word32_le32, Nat.mod_eq_of_lt h]

variable {α : Type*} {f : α → List UInt8} {size : Nat}

theorem length_records (l : List α) (hsize : ∀ x ∈ l, (f x).length = size) :
    (l.flatMap f).length = l.length * size := by
  induction l with
  | nil => simp
  | cons x l ih =>
    have hrest := ih fun y hy => hsize y (List.mem_cons_of_mem _ hy)
    rw [List.flatMap_cons, List.length_append, hrest, hsize x List.mem_cons_self, List.length_cons,
      Nat.succ_mul, Nat.add_comm]

theorem drop_records (l : List α) (hsize : ∀ x ∈ l, (f x).length = size) (i : Nat) :
    (l.flatMap f).drop (i * size) = (l.drop i).flatMap f := by
  induction l generalizing i with
  | nil => simp
  | cons x l ih =>
    cases i with
    | zero => simp
    | succ i =>
      have hx := hsize x List.mem_cons_self
      rw [List.flatMap_cons, List.drop_succ_cons, Nat.succ_mul, Nat.add_comm (i * size) size,
        ← List.drop_drop, ← hx, List.drop_left, hx]
      exact ih (fun y hy => hsize y (List.mem_cons_of_mem _ hy)) i

theorem drop_record (l : List α) (hsize : ∀ x ∈ l, (f x).length = size) {i : Nat}
    (h : i < l.length) :
    (l.flatMap f).drop (i * size) = f l[i] ++ (l.drop (i + 1)).flatMap f := by
  rw [drop_records l hsize, List.drop_eq_getElem_cons h, List.flatMap_cons]

theorem mapM_range {β γ : Type*} {read : Nat → Option β} {g : γ → β} (l : List γ)
    (h : ∀ i (hi : i < l.length), read i = some (g l[i])) :
    (List.range l.length).mapM read = some (l.map g) := by
  induction l using List.reverseRecOn with
  | nil => rfl
  | append_singleton l x ih =>
    have hinit : (List.range l.length).mapM read = some (l.map g) := by
      refine ih fun i hi => ?_
      have hread := h i (by rw [List.length_append]; omega)
      rwa [List.getElem_append_left hi] at hread
    have hlast : read l.length = some (g x) := by
      have hread := h l.length (by rw [List.length_append, List.length_singleton]; omega)
      rwa [List.getElem_concat_length rfl] at hread
    rw [List.length_append, List.length_singleton, List.range_succ, List.mapM_append, hinit]
    simp [hlast]

/-- The `while` loop that appends a byte until the length is a multiple of four. -/
def padTo4 (b : UInt8) (l : List UInt8) : List UInt8 :=
  l ++ List.replicate ((4 - l.length % 4) % 4) b

theorem length_padTo4 (b : UInt8) (l : List UInt8) : (padTo4 b l).length % 4 = 0 := by
  rw [padTo4, List.length_append, List.length_replicate]
  omega

end FractalStudio.Bytes
