/-
Cubic Bézier curves.

A cubic curve is given by four points, and a point of it by three rounds of interpolation between
neighbours.  What is needed here is that a curve cannot leave what its control points span, and in
particular that two values joined by a curve whose control points have the one value and the other
are joined without overshooting.

* `Bezier.quadratic`, `Bezier.cubic` — one coordinate of a curve;
* `Bezier.cubic_mem_Icc` — **a curve stays where its control points are**;
* `Bezier.cubic_monotone` — **a curve with ascending control points ascends**;
* `Bezier.Segment` — a curve in the plane.
-/

import Mathlib.LinearAlgebra.AffineSpace.Ordered

set_option relaxedAutoImplicit false
set_option autoImplicit false

namespace Bezier

open AffineMap (lineMap)

variable {K : Type*} [Field K]

/-! ### One coordinate -/

/-- The point at `t` of the quadratic curve with the control points `a`, `b` and `c`. -/
def quadratic (a b c t : K) : K := lineMap (lineMap a b t) (lineMap b c t) t

/-- The point at `t` of the cubic curve with the control points `a`, `b`, `c` and `d`. -/
def cubic (a b c d t : K) : K := lineMap (quadratic a b c t) (quadratic b c d t) t

@[simp] theorem cubic_const (a t : K) : cubic a a a a t = a := by simp [cubic, quadratic]

/-! ### Order -/

section Order

variable [LinearOrder K] [IsStrictOrderedRing K] {a b c d a' b' c' d' s t : K}

theorem lineMap_mono (h : a ≤ b) (hst : s ≤ t) : lineMap a b s ≤ lineMap a b t := by
  rcases h.eq_or_lt with rfl | hlt
  · rw [AffineMap.lineMap_same_apply, AffineMap.lineMap_same_apply]
  · exact (lineMap_le_lineMap_iff_of_lt' hlt).2 hst

theorem quadratic_le (ha : a ≤ a') (hb : b ≤ b') (hc : c ≤ c') (h₀ : 0 ≤ t) (h₁ : t ≤ 1) :
    quadratic a b c t ≤ quadratic a' b' c' t :=
  lineMap_mono_endpoints (lineMap_mono_endpoints ha hb h₀ h₁)
    (lineMap_mono_endpoints hb hc h₀ h₁) h₀ h₁

/-- Moving the control points up moves the curve up. -/
theorem cubic_le (ha : a ≤ a') (hb : b ≤ b') (hc : c ≤ c') (hd : d ≤ d') (h₀ : 0 ≤ t)
    (h₁ : t ≤ 1) : cubic a b c d t ≤ cubic a' b' c' d' t :=
  lineMap_mono_endpoints (quadratic_le ha hb hc h₀ h₁) (quadratic_le hb hc hd h₀ h₁) h₀ h₁

/-- **A curve stays where its control points are.** -/
theorem cubic_mem_Icc {lo hi : K} (ha : a ∈ Set.Icc lo hi) (hb : b ∈ Set.Icc lo hi)
    (hc : c ∈ Set.Icc lo hi) (hd : d ∈ Set.Icc lo hi) (h₀ : 0 ≤ t) (h₁ : t ≤ 1) :
    cubic a b c d t ∈ Set.Icc lo hi := by
  refine ⟨?_, ?_⟩
  · calc lo = cubic lo lo lo lo t := (cubic_const lo t).symm
      _ ≤ cubic a b c d t := cubic_le ha.1 hb.1 hc.1 hd.1 h₀ h₁
  · calc cubic a b c d t ≤ cubic hi hi hi hi t := cubic_le ha.2 hb.2 hc.2 hd.2 h₀ h₁
      _ = hi := cubic_const hi t

/-- Interpolation between two ascending curves, the lower one first, ascends. -/
theorem lineMap_le_of_le {p p' q q' : K} (hp : p ≤ p') (hq : q ≤ q') (hpq : p ≤ q)
    (h₀ : 0 ≤ s) (hst : s ≤ t) (h₁ : t ≤ 1) : lineMap p q s ≤ lineMap p' q' t :=
  calc lineMap p q s ≤ lineMap p q t := lineMap_mono hpq hst
    _ ≤ lineMap p' q' t := lineMap_mono_endpoints hp hq (h₀.trans hst) h₁

theorem quadratic_monotone (hab : a ≤ b) (hbc : b ≤ c) (h₀ : 0 ≤ s) (hst : s ≤ t) (h₁ : t ≤ 1) :
    quadratic a b c s ≤ quadratic a b c t :=
  lineMap_le_of_le (lineMap_mono hab hst) (lineMap_mono hbc hst)
    (lineMap_mono_endpoints hab hbc h₀ (hst.trans h₁)) h₀ hst h₁

/-- **A curve with ascending control points ascends.** -/
theorem cubic_monotone (hab : a ≤ b) (hbc : b ≤ c) (hcd : c ≤ d) (h₀ : 0 ≤ s) (hst : s ≤ t)
    (h₁ : t ≤ 1) : cubic a b c d s ≤ cubic a b c d t :=
  lineMap_le_of_le (quadratic_monotone hab hbc h₀ hst h₁) (quadratic_monotone hbc hcd h₀ hst h₁)
    (quadratic_le hab hbc hcd h₀ (hst.trans h₁)) h₀ hst h₁

end Order

/-! ### Curves in the plane -/

/-- The curve from `(x₀, y₀)` to `(x₃, y₃)` with the control points `(x₁, y₁)` and `(x₂, y₂)`. -/
structure Segment (K : Type*) where
  x₀ : K
  y₀ : K
  x₁ : K
  y₁ : K
  x₂ : K
  y₂ : K
  x₃ : K
  y₃ : K
  deriving DecidableEq

def Segment.x (segment : Segment K) (t : K) : K :=
  cubic segment.x₀ segment.x₁ segment.x₂ segment.x₃ t

def Segment.y (segment : Segment K) (t : K) : K :=
  cubic segment.y₀ segment.y₁ segment.y₂ segment.y₃ t

end Bezier
