/-
The floats and doubles of the program.

A double has 53 bits and a float 24, and every operation rounds its exact result to the nearest one
(`GnomeUsage/FloatRounding.lean`).  All amounts of the program are far from overflow and underflow.
The rates of the network view are looked at without the roundings too; what computes them takes its
arithmetic as an argument.

* `double`, `float` — an operation on doubles, and the conversion of a double to a float;
* `Arithmetic` — the operations of a computation, and `Arithmetic.binary`, `Arithmetic.exact`, those
  of the program and those without roundings;
* `double_natCast`, `double_double` — what is not rounded;
* `double_mono`, `double_le_natCast` — the order of doubles;
* `close_double` — the error of one operation.
-/

import GnomeUsage.FloatRounding
import Mathlib.Data.Rat.Floor

set_option relaxedAutoImplicit false
set_option autoImplicit false

namespace Usage

open FloatRounding (rnd rnd_exact rnd_mono rnd_nonneg Close unit)

/-- An operation on doubles. -/
def double (x : ℚ) : ℚ := rnd 53 x

/-- The conversion of a double to a float. -/
def float (x : ℚ) : ℚ := rnd 24 x

/-- What a computation makes of an exact result: of an operation on doubles, and of a conversion to
a float. -/
structure Arithmetic where
  double : ℚ → ℚ
  float : ℚ → ℚ

/-- The arithmetic of the program. -/
def Arithmetic.binary : Arithmetic := ⟨Usage.double, Usage.float⟩

/-- The arithmetic without roundings. -/
def Arithmetic.exact : Arithmetic := ⟨id, id⟩

@[simp] theorem Arithmetic.exact_double (x : ℚ) : Arithmetic.exact.double x = x := rfl

theorem double_natCast {n : ℕ} (h : n < 2 ^ 53) : double n = n := by
  have hexact := rnd_exact (K := ℚ) (k := 0) h
  rwa [zpow_zero, mul_one] at hexact

variable {x y : ℚ}

theorem double_nonneg (h : 0 ≤ x) : 0 ≤ double x := rnd_nonneg h

theorem double_mono (h₀ : 0 ≤ x) (h : x ≤ y) : double x ≤ double y := rnd_mono (by decide) h₀ h

theorem double_double (h : 0 ≤ x) : double (double x) = double x :=
  FloatRounding.rnd_rnd (by decide) h

theorem double_le_natCast {n : ℕ} (hn : n < 2 ^ 53) (h₀ : 0 ≤ x) (h : x ≤ n) : double x ≤ n := by
  rw [← double_natCast hn]
  exact double_mono h₀ h

theorem natCast_le_double {n : ℕ} (hn : n < 2 ^ 53) (h : n ≤ x) : n ≤ double x := by
  rw [← double_natCast hn]
  exact double_mono n.cast_nonneg h

/-- A share stays one. -/
theorem double_le_one (h₀ : 0 ≤ x) (h : x ≤ 1) : double x ≤ 1 := by
  have hle := @double_le_natCast x 1 (by decide) h₀ (by rwa [Nat.cast_one])
  rwa [Nat.cast_one] at hle

/-- **The error of one operation.** -/
theorem close_double (h : 0 ≤ x) : Close (1 - unit 53) (1 + unit 53) x (double x) :=
  FloatRounding.close_rnd h

end Usage
