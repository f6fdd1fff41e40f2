import FractalStudio.Compute.ProgressiveOrder

/-!
# The progressive field

The tile loop of `field_variant_impl` and `field_variant_fixed_impl` of `map_kernel.cpp` in a render
that is not cancelled. The threads of the loop share out the work items one by one; an item is a tile
of the progressive order, or the tile of its own index where nobody waits for tiles. Sizes and counts
are `int`s.
-/
namespace FractalStudio.Compute

open ClaimPool

def ceilDiv (value step : Nat) : Int := (wrapI32 (wrapI32 (value + step) - 1)).tdiv step

/-- What the loop is set up from; `progressive` says that `on_field_tile_done` is given. -/
structure FieldGrid where
  width : Nat
  height : Nat
  tileSize : Nat
  progressive : Bool

/-- A rectangle of pixels, as `on_field_tile_done` is given it. -/
structure Rect where
  x : Nat
  y : Nat
  width : Nat
  height : Nat
deriving DecidableEq

namespace FieldGrid
variable (g : FieldGrid)

def tilesX : Nat := (ceilDiv g.width g.tileSize).toNat

def tilesY : Nat := (ceilDiv g.height g.tileSize).toNat

/-- `tile_count`; the loop does not run where it is negative. -/
def tileCount : Nat := (wrapI32 (g.tilesX * g.tilesY)).toNat

def order : Option (List Int) :=
  if g.progressive then mapFieldProgressiveOrder g.tilesX g.tilesY true else some []

def tile (order : List Int) (work : Nat) : Nat :=
  if order.isEmpty then work else (order.getD work 0).toNat

def rect (tile : Nat) : Rect :=
  let x0 := tile % g.tilesX * g.tileSize
  let y0 := tile / g.tilesX * g.tileSize
  let x1 := min g.width (x0 + g.tileSize)
  let y1 := min g.height (y0 + g.tileSize)
  ⟨x0, y0, x1 - x0, y1 - y0⟩

/-- The offsets of the pixels of a rectangle, in the order of the loops. -/
def pixels (r : Rect) : List Nat :=
  (List.range r.height).flatMap fun row =>
    (List.range r.width).map fun col => (r.y + row) * g.width + (r.x + col)

variable {ω : Type} (order : List Int) (s : Pool ω)

/-- The pixels that the threads have evaluated, one after another. -/
def evaluated : List Nat := s.finished.flatMap fun e => g.pixels (g.rect (tile order e.2))

/-- The calls of `on_field_tile_done`. -/
def tilesDone : List Rect :=
  if g.progressive then s.finished.map fun e => g.rect (tile order e.2) else []

/-- The sizes and counts are `int`s. -/
structure Fits : Prop where
  tileSize : 0 < g.tileSize
  width : 0 < g.width ∧ g.width + g.tileSize < 2 ^ 31
  height : 0 < g.height ∧ g.height + g.tileSize < 2 ^ 31
  tiles : (g.width + g.tileSize - 1) / g.tileSize * ((g.height + g.tileSize - 1) / g.tileSize) <
    2 ^ 31

end FieldGrid

section Keys
variable {α β : Type}

theorem nodup_flatMap_of_key {l : List α} {f : α → List β} (key : β → α) (hl : l.Nodup)
    (hf : ∀ a ∈ l, (f a).Nodup) (hkey : ∀ a ∈ l, ∀ b ∈ f a, key b = a) : (l.flatMap f).Nodup := by
  rw [List.nodup_flatMap]
  refine ⟨hf, hl.pairwise_of_forall_ne fun a ha b hb hne c hca hcb => ?_⟩
  exact hne ((hkey a ha c hca).symm.trans (hkey b hb c hcb))

end Keys

/-! ## The pixels of the tiles -/

namespace FieldGrid
variable {g : FieldGrid} {t i : Nat}

theorem ceilDiv_eq {value step : Nat} (hstep : 0 < step) (h : value + step < 2 ^ 31) :
    ceilDiv value step = ((value + step - 1) / step : Nat) := by
  have hsum : wrapI32 ((value : Int) + step) = ((value + step : Nat) : Int) := by
    rw [wrapI32, ← Nat.cast_add]
    exact Int.bmod_eq_of_le (by omega) (by omega)
  have hless : wrapI32 (((value + step : Nat) : Int) - 1) = ((value + step - 1 : Nat) : Int) := by
    rw [wrapI32, ← Int.ofNat_one, ← Int.ofNat_sub (by omega)]
    exact Int.bmod_eq_of_le (by omega) (by omega)
  rw [ceilDiv, hsum, hless, Int.tdiv_eq_ediv_of_nonneg (by omega)]
  rfl

theorem Fits.tilesX_eq (h : g.Fits) : g.tilesX = (g.width + g.tileSize - 1) / g.tileSize := by
  rw [tilesX, ceilDiv_eq h.tileSize h.width.2, Int.toNat_natCast]

theorem Fits.tilesY_eq (h : g.Fits) : g.tilesY = (g.height + g.tileSize - 1) / g.tileSize := by
  rw [tilesY, ceilDiv_eq h.tileSize h.height.2, Int.toNat_natCast]

theorem Fits.tileCount_eq (h : g.Fits) : g.tileCount = g.tilesX * g.tilesY := by
  have htiles := h.tiles
  rw [← h.tilesX_eq, ← h.tilesY_eq] at htiles
  have hwrap : wrapI32 ((g.tilesX : Int) * g.tilesY) = ((g.tilesX * g.tilesY : Nat) : Int) := by
    rw [wrapI32, ← Nat.cast_mul]
    exact Int.bmod_eq_of_le (by omega) (by omega)
  rw [tileCount, hwrap, Int.toNat_natCast]

theorem div_lt_ceil {x n size : Nat} (hsize : 0 < size) (hx : x < n) :
    x / size < (n + size - 1) / size := by
  have hle : (x + size) / size ≤ (n + size - 1) / size := Nat.div_le_div_right (by omega)
  rw [Nat.add_div_right x hsize] at hle
  exact hle

theorem mem_pixels {r : Rect} : i ∈ g.pixels r ↔
    ∃ y x, (r.y ≤ y ∧ y < r.y + r.height) ∧ (r.x ≤ x ∧ x < r.x + r.width) ∧
      i = y * g.width + x := by
  simp only [pixels, List.mem_flatMap, List.mem_map, List.mem_range]
  constructor
  · rintro ⟨row, hrow, col, hcol, rfl⟩
    exact ⟨r.y + row, r.x + col, ⟨by omega, by omega⟩, ⟨by omega, by omega⟩, rfl⟩
  · rintro ⟨y, x, hy, hx, rfl⟩
    refine ⟨y - r.y, by omega, x - r.x, by omega, ?_⟩
    rw [Nat.add_sub_cancel' hy.1, Nat.add_sub_cancel' hx.1]

theorem mul_lt_of_lt_ceil {k n size : Nat} (hsize : 0 < size) (h : k < (n + size - 1) / size) :
    k * size < n := by
  have hmul : (k + 1) * size ≤ n + size - 1 := (Nat.le_div_iff_mul_le hsize).mp h
  rw [Nat.succ_mul] at hmul
  omega

theorem Fits.tile_lt (h : g.Fits) (ht : t < g.tilesX * g.tilesY) :
    t % g.tilesX * g.tileSize < g.width ∧ t / g.tilesX * g.tileSize < g.height := by
  have hpos : 0 < g.tilesX := Nat.pos_of_mul_pos_right (Nat.zero_lt_of_lt ht)
  have hx : t % g.tilesX < g.tilesX := Nat.mod_lt t hpos
  have hy : t / g.tilesX < g.tilesY := Nat.div_lt_of_lt_mul ht
  constructor
  · rw [h.tilesX_eq] at hx
    rw [h.tilesX_eq]
    exact mul_lt_of_lt_ceil h.tileSize hx
  · rw [h.tilesY_eq] at hy
    exact mul_lt_of_lt_ceil h.tileSize hy

/-- The tile that a pixel lies in. -/
def tileOf (g : FieldGrid) (i : Nat) : Nat :=
  i / g.width / g.tileSize * g.tilesX + i % g.width / g.tileSize

theorem tileOf_lt (h : g.Fits) (hi : i < g.width * g.height) :
    g.tileOf i < g.tilesX * g.tilesY := by
  have hx : i % g.width / g.tileSize < g.tilesX := by
    rw [h.tilesX_eq]
    exact div_lt_ceil h.tileSize (Nat.mod_lt _ h.width.1)
  have hy : i / g.width / g.tileSize < g.tilesY := by
    rw [h.tilesY_eq]
    exact div_lt_ceil h.tileSize (Nat.div_lt_of_lt_mul hi)
  calc g.tileOf i < i / g.width / g.tileSize * g.tilesX + g.tilesX := by
        rw [tileOf]
        omega
    _ = (i / g.width / g.tileSize + 1) * g.tilesX := (Nat.succ_mul _ _).symm
    _ ≤ g.tilesY * g.tilesX := Nat.mul_le_mul_right _ hy
    _ = g.tilesX * g.tilesY := Nat.mul_comm _ _

theorem mem_pixels_rect (h : g.Fits) (ht : t < g.tilesX * g.tilesY) :
    i ∈ g.pixels (g.rect t) ↔ i < g.width * g.height ∧ g.tileOf i = t := by
  have hwidth := h.width.1
  have hsize := h.tileSize
  rw [mem_pixels]
  simp only [rect]
  constructor
  · rintro ⟨y, x, hy, hx, rfl⟩
    have hxw : x < g.width := by omega
    have hyh : y < g.height := by omega
    have hrow : (y * g.width + x) / g.width = y := by
      rw [Nat.mul_comm, Nat.mul_add_div hwidth, Nat.div_eq_of_lt hxw, Nat.add_zero]
    have hcol : (y * g.width + x) % g.width = x := by
      rw [Nat.mul_comm, Nat.mul_add_mod, Nat.mod_eq_of_lt hxw]
    have hty : y / g.tileSize = t / g.tilesX :=
      Nat.div_eq_of_lt_le hy.1 (by rw [Nat.succ_mul]; omega)
    have htx : x / g.tileSize = t % g.tilesX :=
      Nat.div_eq_of_lt_le hx.1 (by rw [Nat.succ_mul]; omega)
    refine ⟨?_, ?_⟩
    · calc y * g.width + x < y * g.width + g.width := by omega
        _ = (y + 1) * g.width := (Nat.succ_mul _ _).symm
        _ ≤ g.height * g.width := Nat.mul_le_mul_right _ hyh
        _ = g.width * g.height := Nat.mul_comm _ _
    · rw [tileOf, hrow, hcol, hty, htx, Nat.mul_comm]
      exact Nat.div_add_mod t g.tilesX
  · rintro ⟨hi, rfl⟩
    have hxt : i % g.width / g.tileSize < g.tilesX := by
      rw [h.tilesX_eq]
      exact div_lt_ceil hsize (Nat.mod_lt _ hwidth)
    have htx : g.tileOf i % g.tilesX = i % g.width / g.tileSize := by
      rw [tileOf, Nat.mul_comm, Nat.mul_add_mod, Nat.mod_eq_of_lt hxt]
    have hty : g.tileOf i / g.tilesX = i / g.width / g.tileSize := by
      rw [tileOf, Nat.mul_comm, Nat.mul_add_div (by omega), Nat.div_eq_of_lt hxt, Nat.add_zero]
    have hy := Nat.div_lt_of_lt_mul hi
    have hx := Nat.mod_lt i hwidth
    have hyin := Nat.div_add_mod (i / g.width) g.tileSize
    have hxin := Nat.div_add_mod (i % g.width) g.tileSize
    have hyrest := Nat.mod_lt (i / g.width) hsize
    have hxrest := Nat.mod_lt (i % g.width) hsize
    rw [htx, hty, Nat.mul_comm _ g.tileSize, Nat.mul_comm _ g.tileSize]
    refine ⟨i / g.width, i % g.width, by omega, by omega, ?_⟩
    rw [Nat.mul_comm]
    exact (Nat.div_add_mod i g.width).symm

theorem nodup_pixels {r : Rect} (hr : 0 < r.width → r.x + r.width ≤ g.width) :
    (g.pixels r).Nodup := by
  refine nodup_flatMap_of_key (fun i => i / g.width - r.y) List.nodup_range (fun row _ => ?_)
    fun row _ i hi => ?_
  · exact List.nodup_range.map fun a b hab => Nat.add_left_cancel (Nat.add_left_cancel hab)
  · obtain ⟨col, hcol, rfl⟩ := List.mem_map.mp hi
    have hlt : r.x + col < g.width := by
      have hcol := List.mem_range.mp hcol
      have hin := hr (by omega)
      omega
    rw [Nat.mul_comm, Nat.mul_add_div (by omega), Nat.div_eq_of_lt hlt]
    omega

theorem pixels_perm (h : g.Fits) :
    ((List.range (g.tilesX * g.tilesY)).flatMap fun t => g.pixels (g.rect t)).Perm
      (List.range (g.width * g.height)) := by
  have hnodup : ((List.range (g.tilesX * g.tilesY)).flatMap fun t => g.pixels (g.rect t)).Nodup := by
    refine nodup_flatMap_of_key g.tileOf List.nodup_range (fun t ht => nodup_pixels ?_)
      fun t ht i hi => ?_
    · simp only [rect]
      omega
    · exact ((mem_pixels_rect h (List.mem_range.mp ht)).mp hi).2
  rw [List.perm_ext_iff_of_nodup hnodup List.nodup_range]
  intro i
  rw [List.mem_flatMap, List.mem_range]
  constructor
  · rintro ⟨t, ht, hi⟩
    exact ((mem_pixels_rect h (List.mem_range.mp ht)).mp hi).1
  · intro hi
    have ht := tileOf_lt h hi
    exact ⟨g.tileOf i, List.mem_range.mpr ht, (mem_pixels_rect h ht).mpr ⟨hi, rfl⟩⟩

theorem Fits.tiles_pos (h : g.Fits) : 1 ≤ g.tilesX ∧ 1 ≤ g.tilesY := by
  have hx := div_lt_ceil h.tileSize h.width.1
  have hy := div_lt_ceil h.tileSize h.height.1
  rw [Nat.zero_div] at hx hy
  rw [h.tilesX_eq, h.tilesY_eq]
  exact ⟨hx, hy⟩

/-- The order visits every tile of the grid once. -/
theorem order_perm (h : g.Fits) : ∃ order, g.order = some order ∧
    ((List.range g.tileCount).map (tile order)).Perm (List.range (g.tilesX * g.tilesY)) := by
  have hcount := h.tileCount_eq
  obtain ⟨hx, hy⟩ := h.tiles_pos
  cases hprogressive : g.progressive with
  | false =>
    refine ⟨[], by simp [FieldGrid.order, hprogressive], ?_⟩
    have hid : tile [] = id := rfl
    rw [hid, List.map_id, hcount]
  | true =>
    have hint : g.tilesX * g.tilesY < 2 ^ 31 := by
      rw [h.tilesX_eq, h.tilesY_eq]
      exact h.tiles
    have hxint : g.tilesX < 2 ^ 31 := (Nat.le_mul_of_pos_right _ hy).trans_lt hint
    have hyint : g.tilesY < 2 ^ 31 := (Nat.le_mul_of_pos_left _ hx).trans_lt hint
    obtain ⟨order, horder, hperm⟩ := mapFieldProgressiveOrder_perm hx hy hxint hyint hint.le
    refine ⟨order, by simp [FieldGrid.order, hprogressive, horder], ?_⟩
    have hlength : order.length = g.tileCount := by
      rw [hperm.length_eq, List.length_map, List.length_range, hcount]
    have hne : order.isEmpty = false := by
      rw [List.isEmpty_eq_false_iff, ← List.length_pos_iff, hlength, hcount]
      exact Nat.mul_pos hx hy
    have hmap : (List.range g.tileCount).map (tile order) = order.map Int.toNat := by
      refine List.ext_getElem (by simp [hlength]) fun i hi hi' => ?_
      rw [List.length_map] at hi'
      simp [tile, hne, hi', List.getD_eq_getElem?_getD]
    have hback : ((List.range (g.tilesX * g.tilesY)).map fun i : Nat => (i : Int)).map Int.toNat =
        List.range (g.tilesX * g.tilesY) := by
      rw [List.map_map]
      exact List.map_id _
    rw [hmap, ← hback]
    exact hperm.map Int.toNat

/-- When all threads have run out, every pixel was evaluated once, and every tile was reported if
somebody waits for tiles. -/
theorem evaluated_perm (h : g.Fits) {order : List Int}
    (horder : ((List.range g.tileCount).map (tile order)).Perm (List.range (g.tilesX * g.tilesY)))
    {threads : Nat} (hthreads : 0 < threads) {s : Pool Nat}
    (hs : Reaches g.tileCount (fun _ => 1) (fun w => decide (w < threads)) s)
    (hout : ∀ w, s.pc w = .out) :
    (g.evaluated order s).Perm (List.range (g.width * g.height)) ∧
      (g.progressive = true →
        (g.tilesDone order s).Perm ((List.range (g.tilesX * g.tilesY)).map g.rect)) := by
  have honce := hs.once (decide_eq_true hthreads) hout
  have hitems : (s.finished.map fun e => tile order e.2).Perm
      (List.range (g.tilesX * g.tilesY)) := by
    have hmap := honce.map (tile order)
    rw [List.map_map] at hmap
    exact hmap.trans horder
  constructor
  · have hsplit : g.evaluated order s =
        (s.finished.map fun e => tile order e.2).flatMap fun t => g.pixels (g.rect t) := by
      rw [evaluated, List.flatMap_map]
    rw [hsplit]
    exact (hitems.flatMap_right _).trans (pixels_perm h)
  · intro hprogressive
    have hmap := hitems.map g.rect
    rw [List.map_map] at hmap
    rw [tilesDone, if_pos hprogressive]
    exact hmap

end FieldGrid

end FractalStudio.Compute
