import Mathlib

/-!
# Points of a triangle

`raster_barycentric` decides whether a point lies in a triangle by edge functions, which it turns
into numbers with 16 bits behind the point.  Of an edge function only the lowest 16 bits are left
before the point.
-/

namespace Charis.Graphics

/-- The value of a variable of 32 bits. -/
def toS32 (n : Int) : Int := n.bmod (2 ^ 32)

/-- `FX16_ONE`. -/
def fx16One : Int := 2 ^ 16

/-- `FX16_FROM_INT`. -/
def fx16FromInt (i : Int) : Int := toS32 (i * 2 ^ 16)

/-- `fx16_div`, which fails if the divisor is zero. -/
def fx16Div (a b : Int) : Option Int :=
  if b = 0 then none else some (toS32 ((a * 2 ^ 16).tdiv b))

/-- The vertices of a triangle. -/
structure Triangle where
  x0 : Int
  y0 : Int
  x1 : Int
  y1 : Int
  x2 : Int
  y2 : Int

namespace Triangle

variable (t : Triangle)

def denom : Int := (t.y1 - t.y2) * (t.x0 - t.x2) + (t.x2 - t.x1) * (t.y0 - t.y2)

def numU (x y : Int) : Int := (t.y1 - t.y2) * (x - t.x2) + (t.x2 - t.x1) * (y - t.y2)

def numV (x y : Int) : Int := (t.y2 - t.y0) * (x - t.x2) + (t.x0 - t.x2) * (y - t.y2)

end Triangle

/-- `raster_barycentric`.  The coordinates are those of a point in the triangle. -/
def rasterBarycentric (x y : Int) (t : Triangle) : Option (Option (Int × Int × Int)) :=
  if t.denom = 0 then some none
  else do
    let u ← fx16Div (fx16FromInt (t.numU x y)) (fx16FromInt t.denom)
    let v ← fx16Div (fx16FromInt (t.numV x y)) (fx16FromInt t.denom)
    let w := toS32 (fx16One - u - v)
    if u < 0 ∨ v < 0 ∨ w < 0 then some none else some (some (u, v, w))

namespace Triangle

/-- A point of the closed triangle: all of its barycentric coordinates are nonnegative. -/
def Contains (t : Triangle) (x y : Int) : Prop :=
  ∃ u v w : ℚ, 0 ≤ u ∧ 0 ≤ v ∧ 0 ≤ w ∧ u + v + w = 1 ∧
    x = u * t.x0 + v * t.x1 + w * t.x2 ∧ y = u * t.y0 + v * t.y1 + w * t.y2

end Triangle

/-- What the edge functions say of a point, for a triangle of either orientation. -/
def Inside (denom u v : Int) : Prop :=
  0 ≤ denom.sign * u ∧ 0 ≤ denom.sign * v ∧ denom.sign * u + denom.sign * v ≤ |denom|

variable {t : Triangle} {x y : Int}

/-- The edge functions are the barycentric coordinates times the double area. -/
theorem Triangle.contains_iff (area : t.denom ≠ 0) :
    t.Contains x y ↔ Inside t.denom (t.numU x y) (t.numV x y) := by
  have area' : (t.denom : ℚ) ≠ 0 := by exact_mod_cast area
  have positive : (0 : ℚ) < t.denom.sign * t.denom := by
    have abs : 0 < t.denom.sign * t.denom := by
      rw [Int.sign_mul_self_eq_abs]
      exact abs_pos.mpr area
    exact_mod_cast abs
  have abs : (t.denom.sign * t.denom : ℚ) = |t.denom| := by
    exact_mod_cast Int.sign_mul_self_eq_abs t.denom
  constructor
  · rintro ⟨u, v, w, uNonneg, vNonneg, wNonneg, one, xEq, yEq⟩
    have last : w = 1 - u - v := by linarith
    have uEq : (t.numU x y : ℚ) = u * t.denom := by
      simp only [numU, denom]
      push_cast
      rw [xEq, yEq, last]
      ring
    have vEq : (t.numV x y : ℚ) = v * t.denom := by
      simp only [numV, denom]
      push_cast
      rw [xEq, yEq, last]
      ring
    refine ⟨?_, ?_, ?_⟩
    · have sign : (0 : ℚ) ≤ t.denom.sign * t.numU x y := by
        rw [uEq, mul_left_comm]
        exact mul_nonneg uNonneg positive.le
      exact_mod_cast sign
    · have sign : (0 : ℚ) ≤ t.denom.sign * t.numV x y := by
        rw [vEq, mul_left_comm]
        exact mul_nonneg vNonneg positive.le
      exact_mod_cast sign
    · have sum : (t.denom.sign * t.numU x y + t.denom.sign * t.numV x y : ℚ) ≤ |t.denom| := by
        rw [uEq, vEq, ← abs, mul_left_comm, mul_left_comm _ v, ← add_mul]
        exact mul_le_of_le_one_left positive.le (by linarith)
      exact_mod_cast sum
  rintro ⟨uSign, vSign, sum⟩
  have uSign : (0 : ℚ) ≤ t.denom.sign * t.numU x y := by exact_mod_cast uSign
  have vSign : (0 : ℚ) ≤ t.denom.sign * t.numV x y := by exact_mod_cast vSign
  have sum : (t.denom.sign * t.numU x y + t.denom.sign * t.numV x y : ℚ) ≤ |t.denom| := by
    exact_mod_cast sum
  have sign : (t.denom.sign : ℚ) ≠ 0 := left_ne_zero_of_mul positive.ne'
  have xEq : (t.denom * x : ℚ) =
      t.numU x y * t.x0 + t.numV x y * t.x1 + (t.denom - t.numU x y - t.numV x y) * t.x2 := by
    simp only [numU, numV, denom]
    push_cast
    ring
  have yEq : (t.denom * y : ℚ) =
      t.numU x y * t.y0 + t.numV x y * t.y1 + (t.denom - t.numU x y - t.numV x y) * t.y2 := by
    simp only [numU, numV, denom]
    push_cast
    ring
  refine ⟨t.numU x y / t.denom, t.numV x y / t.denom,
    (t.denom - t.numU x y - t.numV x y) / t.denom, ?_, ?_, ?_, ?_, ?_, ?_⟩
  · rw [← mul_div_mul_left _ _ sign]
    exact div_nonneg uSign positive.le
  · rw [← mul_div_mul_left _ _ sign]
    exact div_nonneg vSign positive.le
  · rw [← mul_div_mul_left _ _ sign, mul_sub, mul_sub]
    exact div_nonneg (by linarith) positive.le
  · field_simp
    ring
  · field_simp
    linarith
  · field_simp
    linarith

/-- The lowest 16 bits of a number, with a sign. -/
def low16 (n : Int) : Int := n.bmod (2 ^ 16)

theorem low16_bounds (n : Int) : -2 ^ 15 ≤ low16 n ∧ low16 n < 2 ^ 15 := by
  simp only [low16, Int.bmod]
  omega

theorem low16_of_small {n : Int} (low : -2 ^ 15 ≤ n) (high : n < 2 ^ 15) : low16 n = n := by
  simp only [low16, Int.bmod]
  omega

theorem fx16FromInt_eq (n : Int) : fx16FromInt n = low16 n * 2 ^ 16 := by
  simp only [fx16FromInt, toS32, low16, Int.bmod]
  omega

/-- The coordinate that belongs to an edge function, if both have 16 bits. -/
def quotient (num denom : Int) : Int := toS32 ((num * 2 ^ 16).tdiv denom)

theorem fx16Div_fromInt (num denom : Int) :
    fx16Div (fx16FromInt num) (fx16FromInt denom) =
      if low16 denom = 0 then none else some (quotient (low16 num) (low16 denom)) := by
  rw [fx16FromInt_eq, fx16FromInt_eq, fx16Div, quotient,
    Int.mul_tdiv_mul_of_pos_left _ _ (by decide)]
  by_cases zero : low16 denom = 0
  · rw [if_pos zero, if_pos (by rw [zero]; rfl)]
  · rw [if_neg zero, if_neg (by omega)]

/-- The verdict on a point whose edge functions are small.  The last alternative is that of a third
coordinate which does not fit into 32 bits. -/
def LowInside (denom u v : Int) : Prop :=
  0 ≤ denom.sign * u ∧ 0 ≤ denom.sign * v ∧
    (denom.sign * u + denom.sign * v ≤ |denom| ∨
      |denom| = 1 ∧ denom.sign * u < 2 ^ 15 ∧ denom.sign * v < 2 ^ 15 ∧
        2 ^ 15 + 1 < denom.sign * u + denom.sign * v)

theorem toS32_of_small {n : Int} (low : -2 ^ 31 ≤ n) (high : n < 2 ^ 31) : toS32 n = n := by
  simp only [toS32, Int.bmod]
  omega

theorem quotient_of_neg {num denom : Int} (positive : 0 < denom) (small : denom ≤ 2 ^ 15)
    (low : -2 ^ 15 ≤ num) (negative : num < 0) : quotient num denom < 0 := by
  have least : 1 ≤ -num * 2 ^ 16 / denom := by
    apply Int.le_ediv_of_mul_le positive
    omega
  have most : -num * 2 ^ 16 / denom ≤ -num * 2 ^ 16 := Int.ediv_le_self _ (by omega)
  have rounded : (num * 2 ^ 16).tdiv denom = -(-num * 2 ^ 16 / denom) := by
    rw [← Int.tdiv_eq_ediv_of_nonneg (by omega), Int.neg_mul, Int.neg_tdiv, Int.neg_neg]
  rw [quotient, rounded, toS32_of_small (by omega) (by omega)]
  omega

theorem quotient_of_nonneg {num denom : Int} (positive : 0 < denom) (nonneg : 0 ≤ num)
    (high : num < 2 ^ 15 ∨ 2 ≤ denom ∧ num ≤ 2 ^ 15) :
    quotient num denom = num * 2 ^ 16 / denom := by
  have least : 0 ≤ num * 2 ^ 16 / denom := Int.ediv_nonneg (by omega) positive.le
  have most : num * 2 ^ 16 / denom < 2 ^ 31 := by
    cases high with
    | inl small =>
        have self : num * 2 ^ 16 / denom ≤ num * 2 ^ 16 := Int.ediv_le_self _ (by omega)
        omega
    | inr half =>
        apply Int.ediv_lt_of_lt_mul positive
        omega
  rw [quotient, Int.tdiv_eq_ediv_of_nonneg (by omega), toS32_of_small (by omega) most]

/-- The sum of the quotients is at most one exactly when that of the numerators is at most the
denominator: rounding takes off less than the next point of the triangle is away. -/
theorem quotients_le_iff {u v denom : Int} (positive : 0 < denom) (small : denom ≤ 2 ^ 15) :
    u * 2 ^ 16 / denom + v * 2 ^ 16 / denom ≤ 2 ^ 16 ↔ u + v ≤ denom := by
  have uBelow := Int.ediv_mul_le (u * 2 ^ 16) positive.ne'
  have vBelow := Int.ediv_mul_le (v * 2 ^ 16) positive.ne'
  have uAbove := Int.lt_ediv_add_one_mul_self (u * 2 ^ 16) positive
  have vAbove := Int.lt_ediv_add_one_mul_self (v * 2 ^ 16) positive
  rw [Int.add_mul, Int.one_mul] at uAbove vAbove
  generalize u * 2 ^ 16 / denom = p at *
  generalize v * 2 ^ 16 / denom = q at *
  constructor
  · intro sum
    have scaled := Int.mul_le_mul_of_nonneg_right sum positive.le
    rw [Int.add_mul] at scaled
    omega
  · intro sum
    by_contra more
    have scaled : (2 ^ 16 + 1) * denom ≤ (p + q) * denom :=
      Int.mul_le_mul_of_nonneg_right (by omega) positive.le
    rw [Int.add_mul, Int.add_mul] at scaled
    omega

/-- The test on small edge functions, for a positive double area. -/
theorem verdict_of_pos {u v denom : Int} (positive : 0 < denom) (small : denom ≤ 2 ^ 15)
    (uLow : -2 ^ 15 ≤ u) (uHigh : u ≤ 2 ^ 15) (vLow : -2 ^ 15 ≤ v) (vHigh : v ≤ 2 ^ 15) :
    ¬ (quotient u denom < 0 ∨ quotient v denom < 0 ∨
        toS32 (fx16One - quotient u denom - quotient v denom) < 0) ↔
      0 ≤ u ∧ 0 ≤ v ∧
        (u + v ≤ denom ∨ denom = 1 ∧ u < 2 ^ 15 ∧ v < 2 ^ 15 ∧ 2 ^ 15 + 1 < u + v) := by
  by_cases uNeg : u < 0
  · have outside := quotient_of_neg positive small uLow uNeg
    constructor
    · intro inside
      exact absurd (Or.inl outside) inside
    · intro inside
      omega
  by_cases vNeg : v < 0
  · have outside := quotient_of_neg positive small vLow vNeg
    constructor
    · intro inside
      exact absurd (Or.inr (Or.inl outside)) inside
    · intro inside
      omega
  have uNonneg : 0 ≤ u := not_lt.mp uNeg
  have vNonneg : 0 ≤ v := not_lt.mp vNeg
  by_cases unit : denom = 1
  · subst unit
    have one (num : Int) : quotient num 1 = toS32 (num * 2 ^ 16) := by
      rw [quotient, Int.tdiv_one]
    have wraps : toS32 (2 ^ 15 * 2 ^ 16) < 0 := by decide
    rw [one, one]
    by_cases uFits : u < 2 ^ 15
    · by_cases vFits : v < 2 ^ 15
      · rw [toS32_of_small (n := u * 2 ^ 16) (by omega) (by omega),
          toS32_of_small (n := v * 2 ^ 16) (by omega) (by omega)]
        have third : toS32 (fx16One - u * 2 ^ 16 - v * 2 ^ 16) < 0 ↔
            1 < u + v ∧ u + v ≤ 2 ^ 15 + 1 := by
          simp only [toS32, fx16One, Int.bmod]
          omega
        rw [third]
        omega
      · have vEq : v = 2 ^ 15 := by omega
        rw [vEq]
        omega
    · have uEq : u = 2 ^ 15 := by omega
      rw [uEq]
      omega
  have uEq := quotient_of_nonneg positive uNonneg (Or.inr ⟨by omega, uHigh⟩)
  have vEq := quotient_of_nonneg positive vNonneg (Or.inr ⟨by omega, vHigh⟩)
  have uLeast : 0 ≤ u * 2 ^ 16 / denom := Int.ediv_nonneg (by omega) positive.le
  have vLeast : 0 ≤ v * 2 ^ 16 / denom := Int.ediv_nonneg (by omega) positive.le
  have half : ∀ num : Int, num ≤ 2 ^ 15 → num * 2 ^ 16 / denom ≤ 2 ^ 30 := by
    intro num high
    apply Int.ediv_le_of_le_mul positive
    omega
  have uMost := half u uHigh
  have vMost := half v vHigh
  rw [uEq, vEq, fx16One, toS32_of_small (by omega) (by omega)]
  have sum : u * 2 ^ 16 / denom + v * 2 ^ 16 / denom ≤ 2 ^ 16 ↔ u + v ≤ denom :=
    quotients_le_iff positive small
  omega

/-- The test on small edge functions. -/
theorem verdict_iff {u v denom : Int} (nonzero : denom ≠ 0)
    (low : -2 ^ 15 ≤ denom) (high : denom < 2 ^ 15) (uLow : -2 ^ 15 ≤ u) (uHigh : u < 2 ^ 15)
    (vLow : -2 ^ 15 ≤ v) (vHigh : v < 2 ^ 15) :
    ¬ (quotient u denom < 0 ∨ quotient v denom < 0 ∨
        toS32 (fx16One - quotient u denom - quotient v denom) < 0) ↔ LowInside denom u v := by
  rcases lt_trichotomy denom 0 with negative | zero | positive
  · have turned (num : Int) : quotient num denom = quotient (-num) (-denom) := by
      rw [quotient, quotient, Int.neg_mul, Int.neg_tdiv_neg]
    rw [turned, turned, verdict_of_pos (by omega) (by omega) (by omega) (by omega) (by omega)
      (by omega), LowInside, Int.sign_eq_neg_one_of_neg negative, abs_of_neg negative,
      Int.neg_one_mul, Int.neg_one_mul]
  · exact absurd zero nonzero
  · rw [verdict_of_pos positive (by omega) uLow uHigh.le vLow vHigh.le, LowInside,
      Int.sign_eq_one_of_pos positive, abs_of_pos positive, Int.one_mul, Int.one_mul]

/-- The test fails if the double area is a multiple of `2 ^ 16`, and otherwise it is a test of what
is left of the edge functions. -/
theorem rasterBarycentric_spec (area : t.denom ≠ 0) (x y : Int) :
    (low16 t.denom = 0 → rasterBarycentric x y t = none) ∧
      (low16 t.denom ≠ 0 → ∃ result, rasterBarycentric x y t = some result ∧
        (result.isSome ↔
          LowInside (low16 t.denom) (low16 (t.numU x y)) (low16 (t.numV x y)))) := by
  rw [rasterBarycentric, if_neg area, fx16Div_fromInt, fx16Div_fromInt]
  constructor
  · intro zero
    rw [if_pos zero]
    rfl
  · intro nonzero
    simp only [if_neg nonzero, Option.bind_eq_bind, Option.bind_some]
    obtain ⟨low, high⟩ := low16_bounds t.denom
    obtain ⟨uLow, uHigh⟩ := low16_bounds (t.numU x y)
    obtain ⟨vLow, vHigh⟩ := low16_bounds (t.numV x y)
    rw [← verdict_iff nonzero low high uLow uHigh vLow vHigh]
    split
    next outside => exact ⟨none, rfl, by simp [outside]⟩
    next inside => exact ⟨_, rfl, by simp [inside]⟩

/-- The double area and the edge functions have 16 bits, and the third coordinate does not
overflow. -/
def Fits (denom u v : Int) : Prop :=
  (-2 ^ 15 ≤ denom ∧ denom < 2 ^ 15) ∧ (-2 ^ 15 ≤ u ∧ u < 2 ^ 15) ∧ (-2 ^ 15 ≤ v ∧ v < 2 ^ 15) ∧
    (|denom| = 1 → denom.sign * u + denom.sign * v ≤ 2 ^ 15 + 1)

/-- Nothing is lost of small edge functions. -/
theorem Fits.inside_iff {denom u v : Int} (fits : Fits denom u v) :
    LowInside (low16 denom) (low16 u) (low16 v) ↔ Inside denom u v := by
  obtain ⟨⟨low, high⟩, ⟨uLow, uHigh⟩, ⟨vLow, vHigh⟩, third⟩ := fits
  rw [low16_of_small low high, low16_of_small uLow uHigh, low16_of_small vLow vHigh, LowInside,
    Inside]
  apply and_congr Iff.rfl
  apply and_congr Iff.rfl
  constructor
  · intro sum
    cases sum with
    | inl within => exact within
    | inr overflow => exact absurd (third overflow.1) (not_le.mpr overflow.2.2.2)
  · exact Or.inl

end Charis.Graphics
