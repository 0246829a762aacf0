/-
The graphs of the views (`usage-graph-widget.vala`).

A graph keeps the last values that were pushed and draws them as one curve, the newest value at the
right, by a Cairo path of cubic curves between neighbouring values.  Its width is that of
`num_points` values, whether there are as many yet or not.  All coordinates are computed in doubles.

* `GraphWidget`, `GraphWidget.push`, `GraphWidget.draw` — the widget, and what it does;
* `anchors`, `curves` — the points a drawing goes through, and the curves between them;
* `points_of_pushes` — **a graph has the last values**;
* `anchors_draw`, `close_xAt` — **the points of a drawing**, and where they are up to the roundings;
* `curves_draw` — **the curves between them**: rounding does not move their control points away;
* `curve_inside` — a graph of shares stays inside its widget;
* `graph_history` — **the curve after any pushes**: which values it goes through and where, and that
  it does not overshoot them.
-/

import GnomeUsage.Bezier
import GnomeUsage.Doubles
import GnomeUsage.RecentWindow
import Mathlib.Algebra.Order.Field.Rat
import Mathlib.Order.Interval.Set.UnorderedInterval
import Mathlib.Tactic.FieldSimp
import Mathlib.Tactic.Linarith
import Mathlib.Tactic.NormNum
import Mathlib.Tactic.Ring

set_option relaxedAutoImplicit false
set_option autoImplicit false

namespace Usage

open Bezier (Segment)
open FloatRounding (Close unit unit_pos unit_le_one)

/-- The conversion of an `int` to `guint`. -/
def toGuint (n : ℤ) : ℕ := (n % 2 ^ 32).toNat

theorem toGuint_of_nonneg {n : ℤ} (hlo : 0 ≤ n) (hhi : n < 2 ^ 32) : (toGuint n : ℤ) = n := by
  unfold toGuint
  rw [Int.emod_eq_of_lt hlo hhi, Int.toNat_of_nonneg hlo]

/-! ### The widget -/

structure GraphWidget where
  num_points : ℤ := 40
  points : List ℚ := []

/-- The calls of `Cairo.Context` that are made. -/
inductive CairoOp where
  | setLineWidth (width : ℚ)
  | setSourceRgb (red green blue : ℚ)
  | rectangle (x y width height : ℚ)
  | fillPreserve
  | stroke
  | moveTo (x y : ℚ)
  | curveTo (x₁ y₁ x₂ y₂ x₃ y₃ : ℚ)
  deriving DecidableEq

namespace GraphWidget

def push (graph : GraphWidget) (p : ℚ) : GraphWidget :=
  let points := graph.points ++ [p]
  if points.length > toGuint graph.num_points then
    -- the link that is deleted is the first one
    { graph with points := points.tail }
  else { graph with points := points }

/-- `x_offset + i * delta_x`, as it is computed. -/
def xAt (x_offset delta_x i : ℚ) : ℚ := double (x_offset + double (i * delta_x))

/-- `(1 - p) * height`, as it is computed. -/
def yAt (height p : ℚ) : ℚ := double (double (1 - p) * height)

/-- The loop of `draw` from the link `iter` on, where `prev` is the data of the link before. -/
def drawFrom (x_offset delta_x height : ℚ) (prev : ℚ) (i : ℕ) : List ℚ → List CairoOp
  | [] => []
  | data :: iter =>
      .curveTo (xAt x_offset delta_x (double (i - 0.5))) (yAt height prev)
          (xAt x_offset delta_x (double (i - 0.5))) (yAt height data)
          (xAt x_offset delta_x i) (yAt height data) ::
        drawFrom x_offset delta_x height data (i + 1) iter

def draw (graph : GraphWidget) (width height : ℚ) : List CairoOp :=
  [.setLineWidth 1, .setSourceRgb 1 1 1, .rectangle 0 0 width height, .fillPreserve,
      .setSourceRgb 0.5 0.5 0.5, .stroke] ++
    match graph.points with
    | [] => []
    | data :: iter =>
        let delta_x := double (width / graph.num_points)
        -- the difference is one of `guint`
        let x_offset := double (toGuint (graph.num_points - graph.points.length) * delta_x)
        [.setSourceRgb 0 (double 0.3) 1, .moveTo x_offset (yAt height data)] ++
          (drawFrom x_offset delta_x height data 1 iter ++ [.stroke])

end GraphWidget

/-! ### What is drawn -/

/-- The point a call leads to. -/
def CairoOp.anchor : CairoOp → Option (ℚ × ℚ)
  | .moveTo x y => some (x, y)
  | .curveTo _ _ _ _ x₃ y₃ => some (x₃, y₃)
  | _ => none

/-- The points that a drawing goes through. -/
def anchors (ops : List CairoOp) : List (ℚ × ℚ) := ops.filterMap CairoOp.anchor

/-- The curves of a drawing, from the current point `x`, `y` on. -/
def curves (x y : ℚ) : List CairoOp → List (Segment ℚ)
  | [] => []
  | .moveTo x y :: ops => curves x y ops
  | .curveTo x₁ y₁ x₂ y₂ x₃ y₃ :: ops => ⟨x, y, x₁, y₁, x₂, y₂, x₃, y₃⟩ :: curves x₃ y₃ ops
  | _ :: ops => curves x y ops

/-- The neighbours among some points. -/
def neighbours (points : List (ℚ × ℚ)) : List ((ℚ × ℚ) × (ℚ × ℚ)) := points.zip points.tail

/-- **The curve joins two points**: its control points are at the height of the nearer one each, and
both at the same place between the two. -/
def Joins (points : (ℚ × ℚ) × (ℚ × ℚ)) (curve : Segment ℚ) : Prop :=
  ∃ c, points.1.1 ≤ c ∧ c ≤ points.2.1 ∧
    curve = ⟨points.1.1, points.1.2, c, points.1.2, c, points.2.2, points.2.1, points.2.2⟩

namespace GraphWidget

/-- The point of the value `p` that is the `i`-th of those that are drawn. -/
def pointAt (x_offset delta_x height : ℚ) (i : ℕ) (p : ℚ) : ℚ × ℚ :=
  (xAt x_offset delta_x i, yAt height p)

/-- The loop draws the values behind the first one. -/
theorem anchors_drawFrom (x delta_x height prev : ℚ) (i : ℕ) (iter : List ℚ) :
    anchors (drawFrom x delta_x height prev i iter) =
      iter.mapIdx fun j => pointAt x delta_x height (j + i) := by
  induction iter generalizing prev i with
  | nil => rfl
  | cons data iter ih =>
      have hrest : anchors (drawFrom x delta_x height data (i + 1) iter) =
          iter.mapIdx fun j => pointAt x delta_x height (j + 1 + i) := by
        simp only [ih, Nat.add_assoc, Nat.add_comm 1]
      rw [List.mapIdx_cons, ← hrest, Nat.zero_add]
      rfl

theorem xAt_zero {x : ℚ} (h : double x = x) (delta_x : ℚ) : xAt x delta_x (0 : ℕ) = x := by
  have hzero : double 0 = 0 := FloatRounding.rnd_zero 53
  rw [xAt, Nat.cast_zero, zero_mul, hzero, add_zero, h]

/-- The path of a drawing. -/
theorem anchors_path {x : ℚ} (h : double x = x) (delta_x height data : ℚ) (iter : List ℚ) :
    anchors (.moveTo x (yAt height data) ::
        (drawFrom x delta_x height data 1 iter ++ [.stroke])) =
      (data :: iter).mapIdx (pointAt x delta_x height) := by
  have hloop := anchors_drawFrom x delta_x height data 1 iter
  have hfirst : (x, yAt height data) = pointAt x delta_x height 0 data := by
    rw [pointAt, xAt_zero h]
  unfold anchors at hloop ⊢
  rw [List.mapIdx_cons, ← hloop, ← hfirst]
  simp [CairoOp.anchor]

/-- How far apart the points of a graph are. -/
def spacing (graph : GraphWidget) (width : ℚ) : ℚ := double (width / graph.num_points)

/-- Where a graph begins to draw. -/
def offset (graph : GraphWidget) (width : ℚ) : ℚ :=
  double ((graph.num_points - graph.points.length) * graph.spacing width)

/-- A graph that has no more points than it is to have. -/
structure Bounded (graph : GraphWidget) : Prop where
  pos : 0 < graph.num_points
  isInt : graph.num_points < 2 ^ 31
  length_le : (graph.points.length : ℤ) ≤ graph.num_points

variable {graph : GraphWidget} {width : ℚ}

/-- The subtraction does not wrap. -/
theorem Bounded.toGuint_sub (h : graph.Bounded) :
    (toGuint (graph.num_points - graph.points.length) : ℚ) =
      graph.num_points - graph.points.length := by
  have hle := h.length_le
  have hint := h.isInt
  have heq := @toGuint_of_nonneg (graph.num_points - graph.points.length) (by omega) (by omega)
  calc (toGuint (graph.num_points - graph.points.length) : ℚ)
      = ((toGuint (graph.num_points - graph.points.length) : ℤ) : ℚ) := by push_cast; rfl
    _ = graph.num_points - graph.points.length := by rw [heq]; push_cast; rfl

theorem Bounded.free_nonneg (h : graph.Bounded) :
    (0 : ℚ) ≤ graph.num_points - graph.points.length :=
  sub_nonneg.2 (by exact_mod_cast h.length_le)

theorem Bounded.num_points_pos (h : graph.Bounded) : (0 : ℚ) < graph.num_points := by
  exact_mod_cast h.pos

theorem Bounded.spacing_nonneg (h : graph.Bounded) (hwidth : 0 ≤ width) :
    0 ≤ graph.spacing width :=
  double_nonneg (div_nonneg hwidth h.num_points_pos.le)

theorem Bounded.offset_nonneg (h : graph.Bounded) (hwidth : 0 ≤ width) :
    0 ≤ graph.offset width :=
  double_nonneg (mul_nonneg h.free_nonneg (h.spacing_nonneg hwidth))

theorem Bounded.double_offset (h : graph.Bounded) (hwidth : 0 ≤ width) :
    double (graph.offset width) = graph.offset width :=
  double_double (mul_nonneg h.free_nonneg (h.spacing_nonneg hwidth))

/-- **The points a graph is drawn through.** -/
theorem anchors_draw (h : graph.Bounded) (hwidth : 0 ≤ width) (height : ℚ) :
    anchors (graph.draw width height) = graph.points.mapIdx
      (pointAt (graph.offset width) (graph.spacing width) height) := by
  have hsub := h.toGuint_sub
  have hoffset := h.double_offset hwidth
  have hframe : ∀ ops, anchors ([.setLineWidth 1, .setSourceRgb 1 1 1,
      .rectangle 0 0 width height, .fillPreserve, .setSourceRgb 0.5 0.5 0.5, .stroke] ++ ops) =
      anchors ops := fun _ => rfl
  rw [draw, hframe]
  rw [offset, spacing, ← hsub] at hoffset ⊢
  cases hpoints : graph.points with
  | nil => rfl
  | cons data iter =>
      rw [hpoints] at hoffset
      exact anchors_path hoffset _ height data iter

/-! ### Where the points are -/

/-- What three roundings may take away from a coordinate, and add to it. -/
def placeLo : ℚ := (1 - unit 53) ^ 3

def placeHi : ℚ := (1 + unit 53) ^ 3

/-- **A point is where it belongs**, up to three roundings. -/
theorem close_xAt (h : graph.Bounded) (hwidth : 0 ≤ width) (i : ℕ) :
    Close placeLo placeHi
      ((graph.num_points - graph.points.length + i) * (width / graph.num_points))
      (xAt (graph.offset width) (graph.spacing width) i) := by
  have hstep : 0 ≤ width / graph.num_points := div_nonneg hwidth h.num_points_pos.le
  have hlo : (0 : ℚ) ≤ 1 - unit 53 := sub_nonneg.2 (unit_le_one 53)
  -- a multiple of the spacing is rounded twice
  have htwice : ∀ {n : ℚ}, 0 ≤ n → Close ((1 - unit 53) * (1 - unit 53))
      ((1 + unit 53) * (1 + unit 53)) (n * (width / graph.num_points))
      (double (n * graph.spacing width)) := by
    intro n hn
    exact ((close_double hstep).const_mul hn).rnd hlo (mul_nonneg hn hstep)
  have hsum := ((htwice h.free_nonneg).add (htwice (Nat.cast_nonneg i))).rnd (p := 53)
    (mul_nonneg hlo hlo) (add_nonneg (mul_nonneg h.free_nonneg hstep)
      (mul_nonneg (Nat.cast_nonneg i) hstep))
  rw [← add_mul] at hsum
  rw [placeLo, placeHi, pow_succ, pow_succ, pow_one, pow_succ, pow_succ, pow_one]
  exact hsum

/-- Three roundings do not move a point out of its widget, as there is one space more than there
are spaces in front of the last point. -/
theorem placeHi_mul_le {n : ℤ} (hpos : 0 < n) (hint : n < 2 ^ 31) :
    placeHi * ((n - 1) / n : ℚ) ≤ 1 := by
  have hge : (0 : ℚ) ≤ n - 1 := by
    have hge : (1 : ℚ) ≤ n := by exact_mod_cast hpos
    linarith
  have hpos : (0 : ℚ) < n := by exact_mod_cast hpos
  have hint : (n : ℚ) - 1 ≤ 2 ^ 31 := by
    have hint : (n : ℚ) < 2 ^ 31 := by exact_mod_cast hint
    linarith
  have hsmall : placeHi - 1 ≤ 1 / 2 ^ 31 := by
    norm_num [placeHi, unit]
  have herror : (placeHi - 1) * ((n : ℚ) - 1) ≤ 1 := by
    calc (placeHi - 1) * ((n : ℚ) - 1) ≤ 1 / 2 ^ 31 * 2 ^ 31 :=
          mul_le_mul hsmall hint hge (by positivity)
      _ = 1 := by norm_num
  rw [← mul_div_assoc, div_le_one hpos]
  linarith

/-- **The points of a graph are inside its widget.** -/
theorem xAt_mem (h : graph.Bounded) (hwidth : 0 ≤ width) {i : ℕ} (hi : i < graph.points.length) :
    xAt (graph.offset width) (graph.spacing width) i ∈ Set.Icc 0 width := by
  refine ⟨double_nonneg (add_nonneg (h.offset_nonneg hwidth) (double_nonneg
    (mul_nonneg (Nat.cast_nonneg i) (h.spacing_nonneg hwidth)))), ?_⟩
  have hstep : 0 ≤ width / graph.num_points := div_nonneg hwidth h.num_points_pos.le
  have hle : (graph.num_points - graph.points.length + i : ℚ) ≤ graph.num_points - 1 := by
    have hi : (i : ℚ) + 1 ≤ graph.points.length := by exact_mod_cast hi
    linarith
  have hhi : 0 ≤ placeHi := pow_nonneg (add_pos one_pos (unit_pos 53)).le 3
  calc xAt (graph.offset width) (graph.spacing width) i
      ≤ placeHi * ((graph.num_points - graph.points.length + i) * (width / graph.num_points)) :=
        (close_xAt h hwidth i).2
    _ ≤ placeHi * ((graph.num_points - 1) * (width / graph.num_points)) :=
        mul_le_mul_of_nonneg_left (mul_le_mul_of_nonneg_right hle hstep) hhi
    _ = placeHi * ((graph.num_points - 1) / graph.num_points) * width := by ring
    _ ≤ 1 * width := mul_le_mul_of_nonneg_right (placeHi_mul_le h.pos h.isInt) hwidth
    _ = width := one_mul width

/-- A share has a height inside the widget. -/
theorem yAt_mem {height p : ℚ} (hheight : 0 ≤ height) (hdouble : double height = height)
    (hlo : 0 ≤ p) (hhi : p ≤ 1) : yAt height p ∈ Set.Icc 0 height := by
  have hnonneg : 0 ≤ double (1 - p) := double_nonneg (by linarith)
  have hone : double (1 - p) ≤ 1 := double_le_one (by linarith) (by linarith)
  refine ⟨double_nonneg (mul_nonneg hnonneg hheight), ?_⟩
  calc yAt height p ≤ double height :=
        double_mono (mul_nonneg hnonneg hheight) (mul_le_of_le_one_left hheight hone)
    _ = height := hdouble

/-! ### The curves -/

theorem xAt_mono {x delta_x i j : ℚ} (hx : 0 ≤ x) (hdelta : 0 ≤ delta_x) (hi : 0 ≤ i)
    (hij : i ≤ j) : xAt x delta_x i ≤ xAt x delta_x j := by
  have hmul : double (i * delta_x) ≤ double (j * delta_x) :=
    double_mono (mul_nonneg hi hdelta) (mul_le_mul_of_nonneg_right hij hdelta)
  exact double_mono (add_nonneg hx (double_nonneg (mul_nonneg hi hdelta)))
    (add_le_add_right hmul x)

/-- The place half way between two points is rounded to one between them. -/
theorem double_half_mem {i : ℕ} (hi : i + 1 < 2 ^ 53) :
    (i : ℚ) ≤ double ((i + 1 : ℕ) - 0.5) ∧ double ((i + 1 : ℕ) - 0.5) ≤ (i + 1 : ℕ) := by
  have hnonneg : (0 : ℚ) ≤ i := Nat.cast_nonneg i
  refine ⟨natCast_le_double (by omega) ?_, double_le_natCast hi ?_ ?_⟩
  · push_cast
    linarith
  · push_cast
    linarith
  · linarith

/-- The loop joins the values. -/
theorem curves_drawFrom {x delta_x : ℚ} (hx : 0 ≤ x) (hdelta : 0 ≤ delta_x) (height prev : ℚ)
    (i : ℕ) (iter : List ℚ) (hlen : i + iter.length < 2 ^ 53) :
    List.Forall₂ Joins
      (neighbours ((prev :: iter).mapIdx fun j => pointAt x delta_x height (j + i)))
      (curves (xAt x delta_x i) (yAt height prev)
        (drawFrom x delta_x height prev (i + 1) iter ++ [.stroke])) := by
  induction iter generalizing prev i with
  | nil => exact List.Forall₂.nil
  | cons data iter ih =>
      rw [List.length_cons] at hlen
      have hrest : ((data :: iter).mapIdx fun j => pointAt x delta_x height (j + 1 + i)) =
          (data :: iter).mapIdx fun j => pointAt x delta_x height (j + (i + 1)) := by
        simp only [Nat.add_assoc, Nat.add_comm 1]
      obtain ⟨hlo, hhi⟩ := @double_half_mem i (by omega)
      have hmiddle : (0 : ℚ) ≤ double ((i + 1 : ℕ) - 0.5) := (Nat.cast_nonneg i).trans hlo
      have ih := ih data (i + 1) (by omega)
      rw [List.mapIdx_cons, Nat.zero_add] at ih
      rw [List.mapIdx_cons, hrest, Nat.zero_add, List.mapIdx_cons, Nat.zero_add]
      refine List.Forall₂.cons ⟨xAt x delta_x (double ((i + 1 : ℕ) - 0.5)), ?_, ?_, rfl⟩ ih
      · exact xAt_mono hx hdelta (Nat.cast_nonneg i) hlo
      · exact xAt_mono hx hdelta hmiddle hhi

/-- **The curves of a graph** join the points it is drawn through, neighbour by neighbour. -/
theorem curves_draw (h : graph.Bounded) (hwidth : 0 ≤ width) (height : ℚ) :
    List.Forall₂ Joins (neighbours (anchors (graph.draw width height)))
      (curves 0 0 (graph.draw width height)) := by
  have hsub := h.toGuint_sub
  have hoffset := h.double_offset hwidth
  have hnonneg := h.offset_nonneg hwidth
  have hspacing := h.spacing_nonneg hwidth
  have hlen : graph.points.length ≤ 2 ^ 31 := by
    have hle := h.length_le
    have hint := h.isInt
    omega
  have hframe : ∀ ops, curves 0 0 ([.setLineWidth 1, .setSourceRgb 1 1 1,
      .rectangle 0 0 width height, .fillPreserve, .setSourceRgb 0.5 0.5 0.5, .stroke] ++ ops) =
      curves 0 0 ops := fun _ => rfl
  rw [anchors_draw h hwidth, draw, hframe]
  rw [offset, ← hsub] at hoffset hnonneg ⊢
  rw [spacing] at hoffset hnonneg hspacing ⊢
  cases hpoints : graph.points with
  | nil => exact List.Forall₂.nil
  | cons data iter =>
      rw [hpoints] at hoffset hnonneg hlen
      have hloop := curves_drawFrom hnonneg hspacing height data 0 iter
        (by rw [List.length_cons] at hlen; omega)
      rw [xAt_zero hoffset] at hloop
      exact hloop

/-! ### The values of a graph -/

theorem push_points (graph : GraphWidget) (p : ℚ) :
    (graph.push p).num_points = graph.num_points ∧
      (graph.push p).points =
        RecentWindow.slide (toGuint graph.num_points) graph.points p := by
  unfold push RecentWindow.slide
  dsimp only
  split <;> exact ⟨rfl, rfl⟩

/-- **A graph has the last values** that were pushed. -/
theorem points_of_pushes (num_points : ℤ) (values : List ℚ) :
    (values.foldl push { num_points := num_points }).num_points = num_points ∧
      (values.foldl push { num_points := num_points }).points =
        values.rtake (toGuint num_points) := by
  rw [← RecentWindow.foldl_slide_nil]
  have hpushes : ∀ (values : List ℚ) (graph : GraphWidget),
      (values.foldl push graph).num_points = graph.num_points ∧
        (values.foldl push graph).points =
          values.foldl (RecentWindow.slide (toGuint graph.num_points)) graph.points := by
    intro values
    induction values with
    | nil => exact fun graph => ⟨rfl, rfl⟩
    | cons p values ih =>
        intro graph
        obtain ⟨hnum, hpoints⟩ := push_points graph p
        rw [List.foldl_cons, List.foldl_cons, ← hpoints, ← hnum]
        exact ih (graph.push p)
  exact hpushes values { num_points := num_points }

theorem bounded_of_pushes {num_points : ℤ} (hpos : 0 < num_points) (hint : num_points < 2 ^ 31)
    (values : List ℚ) : (values.foldl push { num_points := num_points }).Bounded := by
  obtain ⟨hnum, hpoints⟩ := points_of_pushes num_points values
  have hguint := @toGuint_of_nonneg num_points hpos.le (by omega)
  refine ⟨by rw [hnum]; exact hpos, by rw [hnum]; exact hint, ?_⟩
  rw [hnum, hpoints, RecentWindow.length_rtake]
  omega

/-- The point of the value that was pushed `k` values before the newest one. -/
theorem anchors_reverse (h : graph.Bounded) (hwidth : 0 ≤ width) (height : ℚ) {k : ℕ} {p : ℚ}
    (hp : graph.points.reverse[k]? = some p) :
    ∃ x, (anchors (graph.draw width height)).reverse[k]? = some (x, yAt height p) ∧
      Close placeLo placeHi (width - (k + 1) * (width / graph.num_points)) x := by
  have hpos := h.num_points_pos.ne'
  have hk : k < graph.points.length := by
    have hlt := (List.getElem?_eq_some_iff.1 hp).1
    rwa [List.length_reverse] at hlt
  have hindex : ((graph.points.length - 1 - k : ℕ) : ℚ) = graph.points.length - (k + 1) := by
    rw [Nat.sub_sub, Nat.cast_sub (by omega)]
    push_cast
    ring
  have hplace : (graph.num_points - graph.points.length + (graph.points.length - 1 - k : ℕ)) *
      (width / graph.num_points) = width - (k + 1) * (width / graph.num_points) := by
    rw [hindex]
    field_simp
    ring
  refine ⟨xAt (graph.offset width) (graph.spacing width) (graph.points.length - 1 - k : ℕ), ?_, ?_⟩
  · rw [List.getElem?_reverse hk] at hp
    rw [anchors_draw h hwidth, List.getElem?_reverse (by simpa using hk), List.getElem?_mapIdx,
      List.length_mapIdx, hp]
    rfl
  · rw [← hplace]
    exact close_xAt h hwidth _

/-- The values of a graph, counted from the newest one. -/
theorem points_reverse {num_points : ℤ} (hpos : 0 < num_points) (hint : num_points < 2 ^ 31)
    (values : List ℚ) (k : ℕ) :
    (values.foldl push { num_points := num_points }).points.reverse[k]? =
      if k < num_points then values.reverse[k]? else none := by
  have hguint := @toGuint_of_nonneg num_points hpos.le (by omega)
  rw [(points_of_pushes num_points values).2]
  split
  · exact RecentWindow.rtake_reverse_getElem? (by omega) values
  · refine List.getElem?_eq_none ?_
    rw [List.length_reverse, RecentWindow.length_rtake]
    omega

end GraphWidget

/-! ### One curve -/

/-- A joining curve does not overshoot. -/
theorem Joins.y_mem {points : (ℚ × ℚ) × (ℚ × ℚ)} {curve : Segment ℚ} (h : Joins points curve)
    {t : ℚ} (h₀ : 0 ≤ t) (h₁ : t ≤ 1) : curve.y t ∈ Set.uIcc curve.y₀ curve.y₃ := by
  obtain ⟨c, _, _, rfl⟩ := h
  exact Bezier.cubic_mem_Icc Set.left_mem_uIcc Set.left_mem_uIcc Set.right_mem_uIcc
    Set.right_mem_uIcc h₀ h₁

/-- A joining curve goes to the right. -/
theorem Joins.x_monotone {points : (ℚ × ℚ) × (ℚ × ℚ)} {curve : Segment ℚ} (h : Joins points curve)
    {s t : ℚ} (h₀ : 0 ≤ s) (hst : s ≤ t) (h₁ : t ≤ 1) : curve.x s ≤ curve.x t := by
  obtain ⟨c, hlo, hhi, rfl⟩ := h
  exact Bezier.cubic_monotone hlo le_rfl hhi h₀ hst h₁

/-- A joining curve is where the points are. -/
theorem Joins.mem_Icc {p q : ℚ × ℚ} {curve : Segment ℚ} (h : Joins (p, q) curve)
    {lo hi lo' hi' : ℚ} (hp : p.1 ∈ Set.Icc lo hi ∧ p.2 ∈ Set.Icc lo' hi')
    (hq : q.1 ∈ Set.Icc lo hi ∧ q.2 ∈ Set.Icc lo' hi') {t : ℚ} (h₀ : 0 ≤ t) (h₁ : t ≤ 1) :
    curve.x t ∈ Set.Icc lo hi ∧ curve.y t ∈ Set.Icc lo' hi' := by
  obtain ⟨c, hlo, hhi, rfl⟩ := h
  have hc : c ∈ Set.Icc lo hi := ⟨hp.1.1.trans hlo, hhi.trans hq.1.2⟩
  exact ⟨Bezier.cubic_mem_Icc hp.1 hc hc hq.1 h₀ h₁,
    Bezier.cubic_mem_Icc hp.2 hp.2 hq.2 hq.2 h₀ h₁⟩

/-- Every curve joins two of the points. -/
theorem exists_joins {points : List (ℚ × ℚ)} {segments : List (Segment ℚ)}
    (h : List.Forall₂ Joins (neighbours points) segments) {curve : Segment ℚ}
    (hcurve : curve ∈ segments) : ∃ p ∈ points, ∃ q ∈ points, Joins (p, q) curve := by
  obtain ⟨k, hk⟩ := List.mem_iff_getElem?.1 hcurve
  obtain ⟨hlt, rfl⟩ := List.getElem?_eq_some_iff.1 hk
  have hlt' : k < (neighbours points).length := h.length_eq ▸ hlt
  have hjoins := h.get hlt' hlt
  have hmem : (neighbours points)[k] ∈ points.zip points.tail := List.getElem_mem hlt'
  obtain ⟨hp, hq⟩ := List.of_mem_zip hmem
  exact ⟨_, hp, _, List.mem_of_mem_tail hq, hjoins⟩

namespace GraphWidget

/-- **A graph of shares stays inside its widget.** -/
theorem curve_inside {graph : GraphWidget} (h : graph.Bounded)
    (hshares : ∀ p ∈ graph.points, 0 ≤ p ∧ p ≤ 1) (width : ℕ) {height : ℕ}
    (hheight : height < 2 ^ 31) {curve : Segment ℚ}
    (hcurve : curve ∈ curves 0 0 (graph.draw width height)) {t : ℚ} (h₀ : 0 ≤ t) (h₁ : t ≤ 1) :
    curve.x t ∈ Set.Icc (0 : ℚ) width ∧ curve.y t ∈ Set.Icc (0 : ℚ) height := by
  have hwidth : (0 : ℚ) ≤ width := Nat.cast_nonneg width
  have hpoint : ∀ point ∈ anchors (graph.draw width height),
      point.1 ∈ Set.Icc (0 : ℚ) width ∧ point.2 ∈ Set.Icc (0 : ℚ) height := by
    intro point hpoint
    rw [anchors_draw h hwidth] at hpoint
    obtain ⟨i, hi, rfl⟩ := List.mem_mapIdx.1 hpoint
    obtain ⟨hlo, hhi⟩ := hshares _ (List.getElem_mem hi)
    exact ⟨xAt_mem h hwidth hi,
      yAt_mem (Nat.cast_nonneg height) (double_natCast (by omega)) hlo hhi⟩
  obtain ⟨p, hp, q, hq, hjoins⟩ := exists_joins (curves_draw h hwidth height) hcurve
  exact hjoins.mem_Icc (hpoint p hp) (hpoint q hq) h₀ h₁

end GraphWidget

open GraphWidget (placeLo placeHi yAt)

/-- **The curve after any pushes.**  It goes through the last `num_points` values that were pushed
and no others, evenly spaced up to the right, each at its height, up to the roundings; it consists
of one curve between each two neighbours, and these go to the right and do not overshoot the
values. -/
theorem graph_history {num_points : ℤ} (hpos : 0 < num_points) (hint : num_points < 2 ^ 31)
    (values : List ℚ) {width : ℚ} (hwidth : 0 ≤ width) (height : ℚ) :
    let ops := (values.foldl GraphWidget.push { num_points := num_points }).draw width height
    ((anchors ops).length : ℤ) = min (values.length : ℤ) num_points ∧
      (∀ k : ℕ, k < num_points → ∀ p ∈ values.reverse[k]?,
        ∃ x, (anchors ops).reverse[k]? = some (x, yAt height p) ∧
          Close placeLo placeHi (width - (k + 1) * (width / num_points)) x) ∧
      List.Forall₂ Joins (neighbours (anchors ops)) (curves 0 0 ops) ∧
      ∀ curve ∈ curves 0 0 ops,
        (∀ t, 0 ≤ t → t ≤ 1 → curve.y t ∈ Set.uIcc curve.y₀ curve.y₃) ∧
          ∀ s t, 0 ≤ s → s ≤ t → t ≤ 1 → curve.x s ≤ curve.x t := by
  have hbounded := GraphWidget.bounded_of_pushes hpos hint values
  obtain ⟨hnum, hpoints⟩ := GraphWidget.points_of_pushes num_points values
  have hguint := @toGuint_of_nonneg num_points hpos.le (by omega)
  have hcurves := GraphWidget.curves_draw hbounded hwidth height
  refine ⟨?_, ?_, hcurves, ?_⟩
  · rw [GraphWidget.anchors_draw hbounded hwidth, List.length_mapIdx, hpoints,
      RecentWindow.length_rtake]
    omega
  · intro k hk p hp
    have hvalue := GraphWidget.points_reverse hpos hint values k
    rw [if_pos hk] at hvalue
    have hplace := GraphWidget.anchors_reverse hbounded hwidth height (hvalue.trans hp)
    rwa [hnum] at hplace
  · intro curve hcurve
    obtain ⟨_, _, _, _, hjoins⟩ := exists_joins hcurves hcurve
    exact ⟨fun t h₀ h₁ => hjoins.y_mem h₀ h₁, fun s t h₀ hst h₁ => hjoins.x_monotone h₀ hst h₁⟩

/-- Of three values a graph for two shows the last two. -/
theorem graph_history_two :
    let ops := ([1 / 4, 1 / 2, 1].foldl GraphWidget.push { num_points := 2 }).draw 100 10
    (anchors ops).length = 2 ∧
      ∃ x, (anchors ops).reverse[0]? = some (x, yAt 10 1) ∧ Close placeLo placeHi 50 x := by
  obtain ⟨hlen, hanchors, _⟩ := @graph_history 2 (by decide) (by decide) [1 / 4, 1 / 2, 1] 100
    (by norm_num) 10
  obtain ⟨x, hx, hclose⟩ := hanchors 0 (by decide) 1 rfl
  refine ⟨by exact_mod_cast hlen, x, hx, ?_⟩
  norm_num at hclose ⊢
  exact hclose

end Usage
