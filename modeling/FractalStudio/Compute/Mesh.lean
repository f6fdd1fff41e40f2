import FractalStudio.Lib.Numerals
import Mathlib.Data.List.Basic

/-!
# Indexed triangle meshes

`mesh.hpp`: vertices and a flat list of indices, three to a triangle. The triangles of an
index list and the directed edges of a triangle are what the properties of a mesh speak about.
-/
namespace FractalStudio.Compute

structure Vec3 (α : Type*) where
  x : α
  y : α
  z : α
deriving DecidableEq

inductive Axis
  | x | y | z
deriving DecidableEq

def Axis.all : List Axis := [.x, .y, .z]

theorem Axis.mem_all (i : Axis) : i ∈ Axis.all := by cases i <;> decide

/-- The coordinate on an axis. -/
def Vec3.on {α : Type*} (v : Vec3 α) : Axis → α
  | .x => v.x
  | .y => v.y
  | .z => v.z

@[ext] theorem Vec3.ext_on {α : Type*} {u v : Vec3 α} (h : ∀ i, u.on i = v.on i) : u = v := by
  obtain ⟨ux, uy, uz⟩ := u
  obtain ⟨vx, vy, vz⟩ := v
  have hx : ux = vx := h .x
  have hy : uy = vy := h .y
  have hz : uz = vz := h .z
  rw [hx, hy, hz]

/-- The point at an offset. -/
def Vec3.plus (p o : Vec3 Nat) : Vec3 Nat := ⟨p.x + o.x, p.y + o.y, p.z + o.z⟩

theorem Vec3.on_plus (p o : Vec3 Nat) (i : Axis) : (p.plus o).on i = p.on i + o.on i := by
  cases i <;> rfl

structure Mesh (α : Type*) where
  vertices : List (Vec3 α)
  indices : List Nat

variable {α β : Type*}

/-- The triangles of an index list; `size / 3` of them, so that a rest is dropped. -/
def triples : List α → List (α × α × α)
  | a :: b :: c :: rest => (a, b, c) :: triples rest
  | _ => []

def Mesh.triangles (mesh : Mesh α) : List (Nat × Nat × Nat) := triples mesh.indices

def flatten (ts : List (α × α × α)) : List α := ts.flatMap fun t => [t.1, t.2.1, t.2.2]

theorem triples_flatten (ts : List (α × α × α)) : triples (flatten ts) = ts := by
  induction ts with
  | nil => rfl
  | cons t ts ih =>
    show triples (t.1 :: t.2.1 :: t.2.2 :: flatten ts) = t :: ts
    rw [triples, ih]

/-- The directed sides of a triangle. -/
def sides (t : α × α × α) : List (α × α) := [(t.1, t.2.1), (t.2.1, t.2.2), (t.2.2, t.1)]

theorem sides_map (f : α → β) (t : α × α × α) :
    sides (f t.1, f t.2.1, f t.2.2) = (sides t).map (Prod.map f f) := rfl

theorem mem_of_mem_sides {t : α × α × α} {s : α × α} (h : s ∈ sides t) :
    s.1 ∈ [t.1, t.2.1, t.2.2] ∧ s.2 ∈ [t.1, t.2.1, t.2.2] := by
  simp only [sides, List.mem_cons, List.not_mem_nil, or_false] at h
  rcases h with rfl | rfl | rfl <;> simp

/-- A triangle runs along the edge from `v` to `w`. -/
def hasEdge [DecidableEq α] (v w : α) (t : α × α × α) : Bool := (v, w) ∈ sides t

/-- In exactly two triangles, in opposite directions. -/
def PairedEdge [DecidableEq α] (ts : List (α × α × α)) (v w : α) : Prop :=
  ts.countP (fun t => hasEdge v w t || hasEdge w v t) = 2 ∧
    ts.countP (hasEdge v w) = 1 ∧ ts.countP (hasEdge w v) = 1

instance [DecidableEq α] (ts : List (α × α × α)) (v w : α) : Decidable (PairedEdge ts v w) :=
  inferInstanceAs (Decidable (_ ∧ _ ∧ _))

theorem hasEdge_map [DecidableEq α] [DecidableEq β] (f : α → β) {v w : α} {t : α × α × α}
    (hv : ∀ a ∈ [t.1, t.2.1, t.2.2], f v = f a ↔ v = a)
    (hw : ∀ a ∈ [t.1, t.2.1, t.2.2], f w = f a ↔ w = a) :
    hasEdge (f v) (f w) (f t.1, f t.2.1, f t.2.2) = hasEdge v w t := by
  simp only [List.mem_cons, List.not_mem_nil, or_false, forall_eq_or_imp, forall_eq] at hv hw
  simp only [hasEdge, sides, List.mem_cons, Prod.mk.injEq, List.not_mem_nil, or_false, hv, hw]

end FractalStudio.Compute
