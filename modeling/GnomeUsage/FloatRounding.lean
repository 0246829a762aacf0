/-
Rounding to binary floating point.

A float of `p` bits is an integer of `p` bits times a power of two.  An operation on floats rounds
its exact result to the nearest one and, of two that are equally near, to the one whose integer is
even.  Exponents are not bounded here: nothing overflows, and nothing is too small.

* `FloatRounding.nearest` — the nearest integer;
* `FloatRounding.rnd` — rounding to `p` bits;
* `FloatRounding.rnd_mono` — **rounding keeps the order**;
* `FloatRounding.rnd_exact` — what has `p` bits is not rounded;
* `FloatRounding.Close` — a quantity up to factors, and `close_rnd`, **the relative error** of a
  rounding;
* `FloatRounding.close_foldl` — **the relative error of a sum**, added up from left to right.
-/

import Mathlib.Algebra.Order.Round
import Mathlib.Data.Int.Log
import Mathlib.Tactic.Linarith
import Mathlib.Tactic.Positivity
import Mathlib.Tactic.Ring

set_option relaxedAutoImplicit false
set_option autoImplicit false

namespace FloatRounding

/-! ### Up to factors -/

section Close

variable {K : Type*} [Field K] [LinearOrder K]

/-- **A quantity up to factors.** -/
def Close (lo hi x y : K) : Prop := lo * x ≤ y ∧ y ≤ hi * x

variable {lo hi lo' hi' x x' y y' z : K}

theorem Close.refl (x : K) : Close 1 1 x x := by
  rw [Close, one_mul]
  exact ⟨le_rfl, le_rfl⟩

theorem Close.zero (lo hi : K) : Close lo hi 0 0 := by
  rw [Close, mul_zero, mul_zero]
  exact ⟨le_rfl, le_rfl⟩

variable [IsStrictOrderedRing K]

theorem Close.nonneg (h : Close lo hi x y) (hlo : 0 ≤ lo) (hx : 0 ≤ x) : 0 ≤ y :=
  (mul_nonneg hlo hx).trans h.1

/-- What is close to something is not nothing. -/
theorem Close.pos_iff (h : Close lo hi x y) (hlo : 0 < lo) (hhi : 0 < hi) : 0 < y ↔ 0 < x := by
  constructor
  · intro hy
    exact pos_of_mul_pos_right (hy.trans_le h.2) hhi.le
  · intro hx
    exact (mul_pos hlo hx).trans_le h.1

theorem Close.trans (h : Close lo hi x y) (h' : Close lo' hi' y z) (hlo' : 0 ≤ lo')
    (hhi' : 0 ≤ hi') : Close (lo * lo') (hi * hi') x z := by
  constructor
  · calc lo * lo' * x = lo' * (lo * x) := by ring
      _ ≤ lo' * y := mul_le_mul_of_nonneg_left h.1 hlo'
      _ ≤ z := h'.1
  · calc z ≤ hi' * y := h'.2
      _ ≤ hi' * (hi * x) := mul_le_mul_of_nonneg_left h.2 hhi'
      _ = hi * hi' * x := by ring

theorem Close.add (h : Close lo hi x y) (h' : Close lo hi x' y') :
    Close lo hi (x + x') (y + y') := by
  rw [Close, mul_add, mul_add]
  exact ⟨add_le_add h.1 h'.1, add_le_add h.2 h'.2⟩

theorem Close.const_mul (h : Close lo hi x y) {c : K} (hc : 0 ≤ c) :
    Close lo hi (c * x) (c * y) := by
  rw [Close, mul_left_comm, mul_left_comm hi]
  exact ⟨mul_le_mul_of_nonneg_left h.1 hc, mul_le_mul_of_nonneg_left h.2 hc⟩

theorem Close.div_const (h : Close lo hi x y) {c : K} (hc : 0 ≤ c) :
    Close lo hi (x / c) (y / c) := by
  rw [Close, ← mul_div_assoc, ← mul_div_assoc]
  exact ⟨div_le_div_of_nonneg_right h.1 hc, div_le_div_of_nonneg_right h.2 hc⟩

/-- The error of a quotient of amounts that are not negative. -/
theorem Close.div (h : Close lo hi x y) (h' : Close lo' hi' x' y') (hlo : 0 ≤ lo) (hx : 0 ≤ x)
    (hlo' : 0 < lo') (hx' : 0 ≤ x') : Close (lo / hi') (hi / lo') (x / x') (y / y') := by
  obtain ⟨hxlo, hxhi⟩ := h
  obtain ⟨hxlo', hxhi'⟩ := h'
  rcases hx'.eq_or_lt with rfl | hpos
  · -- a quotient by zero is zero, whatever is divided
    have hzero : y' = 0 := by
      rw [mul_zero] at hxlo' hxhi'
      exact le_antisymm hxhi' hxlo'
    rw [hzero, div_zero, div_zero]
    exact Close.zero _ _
  · have hy' : 0 < y' := (mul_pos hlo' hpos).trans_le hxlo'
    have hhi : 0 ≤ hi * x := (mul_nonneg hlo hx).trans (hxlo.trans hxhi)
    rw [Close, div_mul_div_comm, div_mul_div_comm]
    exact ⟨div_le_div₀ ((mul_nonneg hlo hx).trans hxlo) hxlo hy' hxhi',
      div_le_div₀ hhi hxhi (mul_pos hlo' hpos) hxlo'⟩

theorem Close.mul_const (h : Close lo hi x y) {c : K} (hc : 0 ≤ c) :
    Close lo hi (x * c) (y * c) := by
  rw [mul_comm x, mul_comm y]
  exact h.const_mul hc

theorem Close.weaken (h : Close lo hi x y) (hx : 0 ≤ x) (hlo : lo' ≤ lo) (hhi : hi ≤ hi') :
    Close lo' hi' x y :=
  ⟨(mul_le_mul_of_nonneg_right hlo hx).trans h.1,
    h.2.trans (mul_le_mul_of_nonneg_right hhi hx)⟩

end Close

variable {K : Type*} [Field K] [LinearOrder K] [FloorRing K]

/-! ### The nearest integer -/

/-- The nearest integer, and the even one of two that are equally near. -/
def nearest (x : K) : ℤ :=
  if 2 * Int.fract x < 1 ∨ 2 * Int.fract x = 1 ∧ Even ⌊x⌋ then ⌊x⌋ else ⌊x⌋ + 1

theorem floor_le_nearest (x : K) : ⌊x⌋ ≤ nearest x := by
  unfold nearest
  split <;> omega

theorem nearest_le_floor (x : K) : nearest x ≤ ⌊x⌋ + 1 := by
  unfold nearest
  split <;> omega

variable [IsStrictOrderedRing K]

theorem nearest_intCast (n : ℤ) : nearest (n : K) = n := by
  rw [nearest, Int.fract_intCast, if_pos (.inl (by simp)), Int.floor_intCast]

theorem abs_nearest_sub_le (x : K) : |(nearest x : K) - x| ≤ 1 / 2 := by
  have hfract := Int.self_sub_floor x
  have hnonneg := Int.fract_nonneg x
  have hlt := Int.fract_lt_one x
  unfold nearest
  split
  · next h =>
      have hhalf : 2 * Int.fract x ≤ 1 := h.elim le_of_lt fun h => h.1.le
      rw [abs_le]
      constructor <;> linarith
  · next h =>
      have hhalf : 1 ≤ 2 * Int.fract x := not_lt.1 fun hlt => h (.inl hlt)
      rw [abs_le]
      push_cast
      constructor <;> linarith

/-- **The nearest integer keeps the order.** -/
theorem nearest_mono {x y : K} (h : x ≤ y) : nearest x ≤ nearest y := by
  rcases (Int.floor_le_floor h).lt_or_eq with hlt | heq
  · have hx := nearest_le_floor x
    have hy := floor_le_nearest y
    omega
  · have hfract : Int.fract x ≤ Int.fract y := by
      rw [← Int.self_sub_floor, ← Int.self_sub_floor, heq]
      linarith
    unfold nearest
    split
    · split <;> omega
    · next hx =>
        -- `y` is as far from the common floor as `x`, or farther
        have hy : ¬ (2 * Int.fract y < 1 ∨ 2 * Int.fract y = 1 ∧ Even ⌊y⌋) := by
          rintro (hy | ⟨hy, heven⟩)
          · exact hx (.inl (by linarith))
          · rcases hfract.lt_or_eq with hlt | hsame
            · exact hx (.inl (by linarith))
            · exact hx (.inr ⟨by rw [hsame, hy], by rwa [heq]⟩)
        rw [if_neg hy, heq]

/-! ### Rounding to `p` bits -/

/-- The exponent of a number that is to have `p` bits. -/
def exponent (p : ℕ) (x : K) : ℤ := Int.log 2 |x| + 1 - p

/-- **Rounding to `p` bits.** -/
def rnd (p : ℕ) (x : K) : K := nearest (x / 2 ^ exponent p x) * 2 ^ exponent p x

variable {p : ℕ} {x y : K}

theorem two_zpow_pos (k : ℤ) : (0 : K) < 2 ^ k := zpow_pos two_pos k

@[simp] theorem rnd_zero (p : ℕ) : rnd p (0 : K) = 0 := by
  have hzero : nearest (0 : K) = 0 := by
    have h := @nearest_intCast K _ _ _ _ 0
    rwa [Int.cast_zero] at h
  rw [rnd, zero_div, hzero, Int.cast_zero, zero_mul]

theorem rnd_nonneg (h : 0 ≤ x) : 0 ≤ rnd p x := by
  have hfloor : 0 ≤ ⌊x / 2 ^ exponent p x⌋ :=
    Int.floor_nonneg.2 (div_nonneg h (two_zpow_pos _).le)
  have hnearest : (0 : K) ≤ nearest (x / 2 ^ exponent p x) := by
    exact_mod_cast hfloor.trans (floor_le_nearest _)
  exact mul_nonneg hnearest (two_zpow_pos _).le

/-- The powers of two around a number, in units of its last bit. -/
theorem div_exponent (h : 0 < x) :
    (2 : K) ^ ((p : ℤ) - 1) ≤ x / 2 ^ exponent p x ∧ x / 2 ^ exponent p x < 2 ^ (p : ℤ) := by
  have hlo := Int.zpow_log_le_self (R := K) (b := 2) one_lt_two h
  have hhi := Int.lt_zpow_succ_log_self (R := K) (b := 2) one_lt_two x
  push_cast at hlo hhi
  rw [le_div_iff₀ (two_zpow_pos _), div_lt_iff₀ (two_zpow_pos _), exponent, abs_of_pos h,
    ← zpow_add₀ two_ne_zero, ← zpow_add₀ two_ne_zero]
  constructor
  · convert hlo using 2
    ring
  · convert hhi using 2
    ring

theorem exponent_of_pos (h : 0 < x) : exponent p x = Int.log 2 x + 1 - p := by
  rw [exponent, abs_of_pos h]

/-- What is a multiple of the last bit is not rounded. -/
theorem rnd_of_multiple {m : ℤ} (h : x = m * 2 ^ exponent p x) : rnd p x = x := by
  have hquot : x / 2 ^ exponent p x = m := (div_eq_iff (two_zpow_pos _).ne').2 h
  rw [rnd, hquot, nearest_intCast, ← h]

/-- A rounded number is between the powers of two around the number. -/
theorem rnd_mem (hp : 0 < p) (h : 0 < x) :
    (2 : K) ^ Int.log 2 x ≤ rnd p x ∧ rnd p x ≤ 2 ^ (Int.log 2 x + 1) := by
  obtain ⟨hlo, hhi⟩ := div_exponent (p := p) h
  have hnat : ((p : ℤ) - 1) = ((p - 1 : ℕ) : ℤ) := by omega
  rw [hnat, zpow_natCast] at hlo
  rw [zpow_natCast] at hhi
  have hlo : (2 : K) ^ (p - 1) ≤ nearest (x / 2 ^ exponent p x) := by
    have hmono := nearest_mono (x := (((2 ^ (p - 1) : ℕ) : ℤ) : K)) (by push_cast; exact hlo)
    rw [nearest_intCast] at hmono
    exact_mod_cast hmono
  have hhi : (nearest (x / 2 ^ exponent p x) : K) ≤ 2 ^ p := by
    have hmono := nearest_mono (y := (((2 ^ p : ℕ) : ℤ) : K)) (by push_cast; exact hhi.le)
    rw [nearest_intCast] at hmono
    exact_mod_cast hmono
  have hbits : ∀ k : ℕ, (2 : K) ^ k * 2 ^ exponent p x = 2 ^ (k + exponent p x) := by
    intro k
    rw [zpow_add₀ two_ne_zero, zpow_natCast]
  constructor
  · calc (2 : K) ^ Int.log 2 x = 2 ^ (p - 1) * 2 ^ exponent p x := by
          rw [hbits, exponent_of_pos h]
          congr 1
          omega
      _ ≤ rnd p x := mul_le_mul_of_nonneg_right hlo (two_zpow_pos _).le
  · calc rnd p x ≤ 2 ^ p * 2 ^ exponent p x :=
          mul_le_mul_of_nonneg_right hhi (two_zpow_pos _).le
      _ = 2 ^ (Int.log 2 x + 1) := by
          rw [hbits, exponent_of_pos h]
          congr 1
          omega

/-- **Rounding keeps the order.** -/
theorem rnd_mono (hp : 0 < p) (h₀ : 0 ≤ x) (h : x ≤ y) : rnd p x ≤ rnd p y := by
  rcases h₀.eq_or_lt with rfl | hx
  · rw [rnd_zero]
    exact rnd_nonneg h
  · have hy := hx.trans_le h
    rcases (Int.log_mono_right (b := 2) hx h).lt_or_eq with hlt | heq
    · -- a power of two is between the two
      calc rnd p x ≤ 2 ^ (Int.log 2 x + 1) := (rnd_mem hp hx).2
        _ ≤ 2 ^ Int.log 2 y := zpow_le_zpow_right₀ one_le_two hlt
        _ ≤ rnd p y := (rnd_mem hp hy).1
    · have hexp : exponent p x = exponent p y := by
        rw [exponent_of_pos hx, exponent_of_pos hy, heq]
      rw [rnd, rnd, hexp]
      refine mul_le_mul_of_nonneg_right ?_ (two_zpow_pos _).le
      exact_mod_cast nearest_mono (div_le_div_of_nonneg_right h (two_zpow_pos _).le)

/-- **What has `p` bits is not rounded.** -/
theorem rnd_exact {m : ℕ} {k : ℤ} (hm : m < 2 ^ p) : rnd p ((m : K) * 2 ^ k) = m * 2 ^ k := by
  rcases Nat.eq_zero_or_pos m with rfl | hpos
  · rw [Nat.cast_zero, zero_mul, rnd_zero]
  · have hx : (0 : K) < m * 2 ^ k := mul_pos (by exact_mod_cast hpos) (two_zpow_pos k)
    have hlog : Int.log 2 ((m : K) * 2 ^ k) < p + k := by
      refine (Int.lt_zpow_iff_log_lt one_lt_two hx).1 ?_
      push_cast
      rw [zpow_add₀ two_ne_zero, zpow_natCast]
      exact mul_lt_mul_of_pos_right (by exact_mod_cast hm) (two_zpow_pos k)
    -- the last bit is not above the unit of `m`
    obtain ⟨n, hn⟩ := Int.le.dest (show exponent p ((m : K) * 2 ^ k) ≤ k by
      rw [exponent_of_pos hx]
      omega)
    refine rnd_of_multiple (m := (m * 2 ^ n : ℕ)) ?_
    generalize exponent p ((m : K) * 2 ^ k) = e at hn ⊢
    rw [← hn, zpow_add₀ two_ne_zero, zpow_natCast]
    push_cast
    ring

/-- **A rounded number has `p` bits.** -/
theorem exists_bits (hp : 0 < p) (h : 0 ≤ x) :
    ∃ (m : ℕ) (k : ℤ), m < 2 ^ p ∧ rnd p x = m * 2 ^ k := by
  rcases h.eq_or_lt with rfl | hx
  · exact ⟨0, 0, Nat.two_pow_pos p, by rw [rnd_zero, Nat.cast_zero, zero_mul]⟩
  · obtain ⟨m, hm⟩ := Int.eq_ofNat_of_zero_le <|
      (Int.floor_nonneg.2 (div_nonneg h (two_zpow_pos (exponent p x)).le)).trans
        (floor_le_nearest (x / 2 ^ exponent p x))
    have hrnd : rnd p x = m * 2 ^ exponent p x := by
      rw [rnd, hm, Int.cast_natCast]
    have hle : m ≤ 2 ^ p := by
      have hlt := (div_exponent (p := p) hx).2
      rw [zpow_natCast] at hlt
      have hmono := nearest_mono (x := x / 2 ^ exponent p x) (y := (((2 ^ p : ℕ) : ℤ) : K))
        (by push_cast; exact hlt.le)
      rw [nearest_intCast, hm] at hmono
      exact_mod_cast hmono
    rcases hle.lt_or_eq with hlt | heq
    · exact ⟨m, exponent p x, hlt, hrnd⟩
    · -- it has been rounded up to the next power of two
      refine ⟨1, p + exponent p x, Nat.one_lt_two_pow hp.ne', ?_⟩
      rw [hrnd, heq, zpow_add₀ two_ne_zero, zpow_natCast]
      push_cast
      ring

/-- A rounded number is not rounded again. -/
theorem rnd_rnd (hp : 0 < p) (h : 0 ≤ x) : rnd p (rnd p x) = rnd p x := by
  obtain ⟨m, k, hm, hrnd⟩ := exists_bits hp h
  rw [hrnd, rnd_exact hm]

/-! ### Errors -/

/-- The error of a rounding is half of the last bit at most. -/
theorem abs_rnd_sub_le (x : K) : |rnd p x - x| ≤ 2 ^ exponent p x / 2 := by
  have hpos := two_zpow_pos (K := K) (exponent p x)
  have hsplit : rnd p x - x =
      (nearest (x / 2 ^ exponent p x) - x / 2 ^ exponent p x) * 2 ^ exponent p x := by
    rw [rnd, sub_mul, div_mul_cancel₀ _ hpos.ne']
  rw [hsplit, abs_mul, abs_of_pos hpos,
    div_eq_inv_mul (2 ^ exponent p x), ← one_div]
  exact mul_le_mul_of_nonneg_right (abs_nearest_sub_le _) hpos.le

/-- The relative error of a rounding to `p` bits. -/
def unit (p : ℕ) : K := (2 ^ p)⁻¹

theorem unit_pos (p : ℕ) : (0 : K) < unit p := inv_pos.2 (pow_pos two_pos p)

theorem unit_le_one (p : ℕ) : (unit p : K) ≤ 1 := inv_le_one_of_one_le₀ (one_le_pow₀ one_le_two)

/-- **The relative error of a rounding.** -/
theorem close_rnd (h : 0 ≤ x) : Close (1 - unit p) (1 + unit p) x (rnd p x) := by
  rcases h.eq_or_lt with rfl | hx
  · rw [rnd_zero, Close, mul_zero, mul_zero]
    exact ⟨le_rfl, le_rfl⟩
  · have herror := abs_rnd_sub_le (p := p) x
    -- the last bit is at most as large as the number, but for the bits of the float
    have hbit : (2 : K) ^ exponent p x / 2 ≤ unit p * x := by
      have hlog := Int.zpow_log_le_self (R := K) (b := 2) one_lt_two hx
      push_cast at hlog
      calc (2 : K) ^ exponent p x / 2 = unit p * 2 ^ Int.log 2 x := by
            rw [exponent_of_pos hx, unit, zpow_sub₀ two_ne_zero, zpow_add₀ two_ne_zero,
              zpow_one, zpow_natCast]
            field_simp
        _ ≤ unit p * x := mul_le_mul_of_nonneg_left hlog (unit_pos p).le
    obtain ⟨hlo, hhi⟩ := abs_le.1 (herror.trans hbit)
    constructor <;> linarith

variable {lo hi : K}

theorem Close.rnd (h : Close lo hi x y) (hlo : 0 ≤ lo) (hx : 0 ≤ x) :
    Close (lo * (1 - unit p)) (hi * (1 + unit p)) x (rnd p y) :=
  h.trans (close_rnd (h.nonneg hlo hx)) (sub_nonneg.2 (unit_le_one p))
    (add_pos one_pos (unit_pos p)).le

/-- **The relative error of a sum**, added up from left to right. -/
theorem close_foldl {α : Type*} (p : ℕ) {f g : α → K} {l : List α} (hlo : 0 ≤ lo) (hhi : 0 ≤ hi)
    (hf : ∀ a ∈ l, 0 ≤ f a) (hfg : ∀ a ∈ l, Close lo hi (f a) (g a)) :
    Close (lo * (1 - unit p) ^ l.length) (hi * (1 + unit p) ^ l.length) (l.map f).sum
      (l.foldl (fun s a => FloatRounding.rnd p (s + g a)) 0) := by
  have h₀ : (0 : K) ≤ 1 - unit p := sub_nonneg.2 (unit_le_one p)
  have h₁ : (1 : K) - unit p ≤ 1 := sub_le_self _ (unit_pos p).le
  have h₂ : (1 : K) ≤ 1 + unit p := le_add_of_nonneg_right (unit_pos p).le
  -- from any sum before, with any number of roundings behind it
  suffices hfrom : ∀ (n : ℕ) (s t : K), 0 ≤ s →
      Close (lo * (1 - unit p) ^ n) (hi * (1 + unit p) ^ n) s t →
      Close (lo * (1 - unit p) ^ (n + l.length)) (hi * (1 + unit p) ^ (n + l.length))
        (s + (l.map f).sum) (l.foldl (fun s a => FloatRounding.rnd p (s + g a)) t) by
    have h := hfrom 0 0 0 le_rfl (Close.zero _ _)
    rwa [zero_add, zero_add] at h
  induction l with
  | nil =>
      intro n s t _ h
      simpa using h
  | cons a l ih =>
      intro n s t hs h
      obtain ⟨ha, hf⟩ := List.forall_mem_cons.1 hf
      obtain ⟨hga, hfg⟩ := List.forall_mem_cons.1 hfg
      have hga : Close (lo * (1 - unit p) ^ n) (hi * (1 + unit p) ^ n) (f a) (g a) :=
        hga.weaken ha (mul_le_of_le_one_right hlo (pow_le_one₀ h₀ h₁))
          (le_mul_of_one_le_right hhi (one_le_pow₀ h₂))
      have hstep := (h.add hga).rnd (p := p) (mul_nonneg hlo (pow_nonneg h₀ n)) (add_nonneg hs ha)
      rw [mul_assoc, mul_assoc, ← pow_succ, ← pow_succ] at hstep
      have h := ih hf hfg (n + 1) (s + f a) _ (add_nonneg hs ha) hstep
      rw [List.map_cons, List.sum_cons, List.length_cons, List.foldl_cons,
        Nat.add_comm l.length 1, ← Nat.add_assoc n 1, ← add_assoc (s : K)]
      exact h

end FloatRounding
