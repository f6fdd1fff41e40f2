import FractalStudio.Compute.ProgressiveField
import FractalStudio.Fields.Sessions

/-!
# Progressive renders of a session

The tile loop calls back into the session for every tile that it has finished. The session counts
each pixel once, and a revision for each tile.
-/
namespace FractalStudio.Fields

open Compute (Rect FieldGrid)
open ClaimPool

namespace Session
variable {q : Session} {rects : List Rect}

def tileDone (q : Session) (r : Rect) : Session := q.publishRect r.x r.y r.width r.height

/-- A rectangle of the frame. -/
def Inside (q : Session) (r : Rect) : Prop :=
  0 < r.width ∧ 0 < r.height ∧ r.x + r.width ≤ q.width ∧ r.y + r.height ≤ q.height

/-- A session that a render publishes to. -/
structure Receiving (q : Session) : Prop where
  whole : q.Whole
  running : q.state = .running
  allocated : q.allocated = true

theorem tileDone_eq (h : q.Receiving) {r : Rect} (hr : q.Inside r) :
    q.tileDone r = { q with
      published := ((offsets q.width r.x r.y r.width r.height).foldl mark
        (q.published, q.completedPixels)).1
      completedPixels := ((offsets q.width r.x r.y r.width r.height).foldl mark
        (q.published, q.completedPixels)).2
      revision := q.revision + 1 } := by
  obtain ⟨hwidth, hheight, hx, hy⟩ := hr
  unfold tileDone publishRect
  rw [if_neg]
  · simp only [Int.toNat_natCast]
  · simp only [h.running, h.allocated, ne_eq, not_true_eq_false, Bool.true_eq_false, false_or,
      or_false]
    omega

theorem Receiving.tileDone (h : q.Receiving) {r : Rect} (hr : q.Inside r) :
    (q.tileDone r).Receiving := by
  rw [tileDone_eq h hr]
  exact ⟨h.whole.marks _ _, h.running, h.allocated⟩

theorem foldl_tileDone (h : q.Receiving) (hrects : ∀ r ∈ rects, q.Inside r) :
    (rects.foldl tileDone q).Receiving ∧ (rects.foldl tileDone q).pixels = q.pixels ∧
      (rects.foldl tileDone q).revision = q.revision + rects.length ∧
      ∀ i < q.pixels, q.published[i]? = some true ∨
        (∃ r ∈ rects, i ∈ offsets q.width r.x r.y r.width r.height) →
        (rects.foldl tileDone q).published[i]? = some true := by
  induction rects generalizing q with
  | nil =>
    refine ⟨h, rfl, rfl, fun i _ hi => ?_⟩
    rcases hi with hi | ⟨r, hr, -⟩
    · exact hi
    · cases hr
  | cons r rects ih =>
    have hr := hrects r (List.mem_cons_self ..)
    have heq := tileDone_eq h hr
    have hinside : ∀ r' ∈ rects, (q.tileDone r).Inside r' := fun r' hr' => by
      rw [heq]
      exact hrects r' (List.mem_cons_of_mem r hr')
    obtain ⟨hreceiving, hpixels, hrevision, hpublished⟩ := ih (h.tileDone hr) hinside
    refine ⟨hreceiving, ?_, ?_, fun i hi hmem => ?_⟩
    · rw [List.foldl_cons, hpixels, heq]
      rfl
    · have hone : (q.tileDone r).revision = q.revision + 1 := by rw [heq]
      rw [List.foldl_cons, hrevision, hone, List.length_cons]
      omega
    · have hlength : i < q.published.length := by
        rw [h.whole.1]
        exact hi
      have hi' : i < (q.tileDone r).pixels := by
        rw [heq]
        exact hi
      refine hpublished i hi' ?_
      rw [heq]
      rcases hmem with hmem | ⟨r', hr', hmem⟩
      · exact .inl (foldl_mark_keeps _ hmem)
      · rcases List.mem_cons.mp hr' with rfl | hr'
        · exact .inl (foldl_mark_marks hmem hlength)
        · exact .inr ⟨r', hr', hmem⟩

theorem Whole.all_completed (h : q.Whole) (hall : ∀ i < q.pixels, q.published[i]? = some true) :
    q.completedPixels = q.pixels := by
  have hcount : q.published.count true = q.published.length := by
    refine List.count_eq_length.mpr fun b hb => ?_
    obtain ⟨i, hi, rfl⟩ := List.getElem_of_mem hb
    have hget := hall i (by rw [← h.1]; exact hi)
    rw [List.getElem?_eq_getElem hi] at hget
    exact (Option.some.inj hget).symm
  rw [h.2.1, hcount, h.1]

end Session

/-! ## The tiles of a render -/

namespace Session
variable {q : Session} {g : FieldGrid} {t : Nat}

theorem inside_rect (h : g.Fits) (hwidth : q.width = g.width) (hheight : q.height = g.height)
    (ht : t < g.tilesX * g.tilesY) : q.Inside (g.rect t) := by
  obtain ⟨hx, hy⟩ := h.tile_lt ht
  have hsize := h.tileSize
  simp only [Inside, FieldGrid.rect, hwidth, hheight]
  omega

theorem tilesDone_completed (h : g.Fits) (hq : q.Receiving) (hwidth : q.width = g.width)
    (hheight : q.height = g.height) {tiles : List Rect}
    (hperm : tiles.Perm ((List.range (g.tilesX * g.tilesY)).map g.rect)) :
    (tiles.foldl tileDone q).completedPixels = q.pixels ∧
      (tiles.foldl tileDone q).revision = q.revision + g.tilesX * g.tilesY := by
  have hinside : ∀ r ∈ tiles, q.Inside r := fun r hr => by
    obtain ⟨t, ht, rfl⟩ := List.mem_map.mp (hperm.mem_iff.mp hr)
    exact inside_rect h hwidth hheight (List.mem_range.mp ht)
  obtain ⟨hreceiving, hpixels, hrevision, hpublished⟩ := foldl_tileDone hq hinside
  constructor
  · rw [← hpixels]
    refine hreceiving.whole.all_completed fun i hi => hpublished i (hpixels ▸ hi) (.inr ?_)
    have hlt : i < g.width * g.height := by
      rw [hpixels, Session.pixels, hwidth, hheight] at hi
      exact hi
    have ht := Compute.FieldGrid.tileOf_lt h hlt
    have hmem := (Compute.FieldGrid.mem_pixels_rect h ht).mpr ⟨hlt, rfl⟩
    refine ⟨g.rect (g.tileOf i), hperm.mem_iff.mpr
      (List.mem_map_of_mem (List.mem_range.mpr ht)), ?_⟩
    rw [hwidth]
    simpa only [FieldGrid.pixels, offsets, Nat.add_assoc] using hmem
  · rw [hrevision, hperm.length_eq, List.length_map, List.length_range]

end Session

/-- The order takes every tile once; a progressive render evaluates every pixel and reports every tile
once, and ends with all pixels counted. -/
theorem progressive_tiles_each_once :
    (∀ columns rows : Nat, 1 ≤ columns → 1 ≤ rows → columns < 2 ^ 31 → rows < 2 ^ 31 →
      ∃ order, Compute.mapFieldProgressiveOrder columns rows true = some order ∧
        order.length = columns * rows ∧
        (columns * rows ≤ 2 ^ 31 →
          order.Perm ((List.range (columns * rows)).map fun i : Nat => (i : Int)))) ∧
    ∀ g : FieldGrid, g.Fits → g.progressive = true → ∃ order, g.order = some order ∧
      ∀ (threads : Nat) (s : Pool Nat), 0 < threads →
        Reaches g.tileCount (fun _ => 1) (fun w => decide (w < threads)) s →
        (∀ w, s.pc w = .out) →
        (g.evaluated order s).Perm (List.range (g.width * g.height)) ∧
          (g.tilesDone order s).length = g.tilesX * g.tilesY ∧
          (g.tilesDone order s).Perm ((List.range (g.tilesX * g.tilesY)).map g.rect) ∧
          ∀ q : Session, q.Receiving → q.width = g.width → q.height = g.height →
            ((g.tilesDone order s).foldl Session.tileDone q).completedPixels = q.pixels ∧
              ((g.tilesDone order s).foldl Session.tileDone q).revision =
                q.revision + g.tilesX * g.tilesY := by
  refine ⟨fun columns rows hcolumns hrows hcolumnsInt hrowsInt => ?_, fun g h hprogressive => ?_⟩
  · obtain ⟨bits, order, horder, hperm⟩ :=
      Compute.mapFieldProgressiveOrder_tiles hcolumns hrows hcolumnsInt hrowsInt
    refine ⟨order, horder, ?_, fun hcount => ?_⟩
    · rw [hperm.length_eq, List.length_map, Compute.length_rankedTiles, Nat.mul_comm]
    · rwa [Compute.rankedTiles_indices hcount] at hperm
  · obtain ⟨order, horder, hitems⟩ := Compute.FieldGrid.order_perm h
    refine ⟨order, horder, fun threads s hthreads hs hout => ?_⟩
    obtain ⟨hpixels, htiles⟩ := Compute.FieldGrid.evaluated_perm h hitems hthreads hs hout
    have htiles := htiles hprogressive
    refine ⟨hpixels, ?_, htiles, fun q hq hwidth hheight => ?_⟩
    · rw [htiles.length_eq, List.length_map, List.length_range]
    · exact Session.tilesDone_completed h hq hwidth hheight htiles

/-- A frame of three tiles by two. -/
def smallGrid : FieldGrid := ⟨20, 9, 8, true⟩

theorem smallGrid_fits : smallGrid.Fits := by
  constructor <;> decide

/-- The session of the small frame, as a render publishes to it. -/
def smallSession : Session :=
  { (⟨20, 9, 1620⟩ : Input).session with allocated := true }

theorem smallSession_receiving : smallSession.Receiving := by
  refine ⟨⟨List.length_replicate, ?_, rfl⟩, rfl, rfl⟩
  show 0 = (List.replicate _ false).count true
  rw [List.count_replicate]
  rfl

/-- Six tiles, handed to the session once each. -/
theorem progressive_tiles_each_once_smallGrid :
    (∃ order, Compute.mapFieldProgressiveOrder 3 2 true = some order ∧
      order.Perm ((List.range 6).map fun i : Nat => (i : Int))) ∧
    ∃ order, smallGrid.order = some order ∧ ∃ s : Pool Nat,
      (smallGrid.evaluated order s).Perm (List.range 180) ∧
        (smallGrid.tilesDone order s).length = 6 ∧
        ((smallGrid.tilesDone order s).foldl Session.tileDone smallSession).completedPixels =
          180 := by
  obtain ⟨horders, hgrids⟩ := progressive_tiles_each_once
  obtain ⟨order, horder, -, hperm⟩ := horders 3 2 (by decide) (by decide) (by decide) (by decide)
  refine ⟨⟨order, horder, hperm (by decide)⟩, ?_⟩
  obtain ⟨tiles, htiles, hruns⟩ := hgrids smallGrid smallGrid_fits rfl
  obtain ⟨s, hs, hout⟩ := @exists_end 2 (fun _ => 1) smallGrid.tileCount (by decide) Nat.one_pos
  obtain ⟨hpixels, hlength, -, hsession⟩ := hruns 2 s (by decide) hs hout
  exact ⟨tiles, htiles, s, hpixels, hlength,
    (hsession smallSession smallSession_receiving rfl rfl).1⟩

end FractalStudio.Fields
