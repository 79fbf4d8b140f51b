import Mathlib

/-!
# Fields of a word

A field is a number of bits from a position on.  Fields that do not overlap can be filled one by
one and read again.
-/

namespace Charis.Lib

/-- The bits of a field. -/
def fieldMask (pos bits : Nat) : Nat := (2 ^ bits - 1) <<< pos

variable {pos pos' bits bits' value word : Nat}

theorem testBit_fieldMask (pos bits i : Nat) :
    (fieldMask pos bits).testBit i = decide (pos ≤ i ∧ i < pos + bits) := by
  rw [fieldMask, Nat.testBit_shiftLeft, Nat.testBit_two_pow_sub_one, ← Bool.decide_and]
  apply decide_eq_decide.mpr
  omega

theorem fieldMask_lt {width : Nat} (fits : pos + bits ≤ width) : fieldMask pos bits < 2 ^ width := by
  have low : 2 ^ bits - 1 < 2 ^ bits := Nat.sub_lt (Nat.two_pow_pos bits) Nat.one_pos
  apply Nat.lt_of_lt_of_le _ (Nat.pow_le_pow_right Nat.two_pos fits)
  rw [fieldMask, Nat.shiftLeft_eq, Nat.pow_add, Nat.mul_comm]
  exact Nat.mul_lt_mul_of_pos_left low (Nat.two_pow_pos pos)

/-- Two fields have no bit in common if and only if one of them is behind the other. -/
theorem fieldMask_and_eq_zero (filled : 0 < bits) (filled' : 0 < bits') :
    fieldMask pos bits &&& fieldMask pos' bits' = 0 ↔ pos + bits ≤ pos' ∨ pos' + bits' ≤ pos := by
  constructor
  · intro none
    by_contra overlap
    have bit : (fieldMask pos bits &&& fieldMask pos' bits').testBit (max pos pos') = true := by
      rw [Nat.testBit_and, testBit_fieldMask, testBit_fieldMask, ← Bool.decide_and]
      apply decide_eq_true
      omega
    rw [none, Nat.zero_testBit] at bit
    cases bit
  · intro apart
    apply Nat.eq_of_testBit_eq
    intro i
    rw [Nat.testBit_and, testBit_fieldMask, testBit_fieldMask, ← Bool.decide_and,
      Nat.zero_testBit]
    apply decide_eq_false
    omega

theorem testBit_shiftLeft_field (small : value < 2 ^ bits) {i : Nat}
    (outside : ¬(pos ≤ i ∧ i < pos + bits)) : (value <<< pos).testBit i = false := by
  rw [Nat.testBit_shiftLeft]
  by_cases low : pos ≤ i
  · have high : 2 ^ bits ≤ 2 ^ (i - pos) := Nat.pow_le_pow_right Nat.two_pos (by omega)
    rw [Nat.testBit_lt_two_pow (Nat.lt_of_lt_of_le small high), Bool.and_false]
  · rw [decide_eq_false low, Bool.false_and]

theorem shiftLeft_and_fieldMask (small : value < 2 ^ bits) :
    value <<< pos &&& fieldMask pos bits = value <<< pos := by
  apply Nat.eq_of_testBit_eq
  intro i
  rw [Nat.testBit_and, testBit_fieldMask]
  by_cases inside : pos ≤ i ∧ i < pos + bits
  · rw [decide_eq_true inside, Bool.and_true]
  · rw [testBit_shiftLeft_field small inside, Bool.false_and]

/-- A value in its field does not pass the mask of a field that does not overlap. -/
theorem shiftLeft_and_other (small : value < 2 ^ bits)
    (apart : pos + bits ≤ pos' ∨ pos' + bits' ≤ pos) :
    value <<< pos &&& fieldMask pos' bits' = 0 := by
  apply Nat.eq_of_testBit_eq
  intro i
  rw [Nat.testBit_and, testBit_fieldMask, Nat.zero_testBit]
  by_cases inside : pos ≤ i ∧ i < pos + bits
  · rw [decide_eq_false (by omega), Bool.and_false]
  · rw [testBit_shiftLeft_field small inside, Bool.false_and]

theorem field_lt (pos bits word : Nat) : (word &&& fieldMask pos bits) >>> pos < 2 ^ bits := by
  have low : (2 ^ bits - 1) < 2 ^ bits := Nat.sub_lt (Nat.two_pow_pos bits) Nat.one_pos
  rw [Nat.shiftRight_and_distrib, fieldMask, Nat.shiftLeft_shiftRight]
  exact Nat.lt_of_le_of_lt Nat.and_le_right low

theorem field_shiftLeft (pos bits word : Nat) :
    ((word &&& fieldMask pos bits) >>> pos) <<< pos = word &&& fieldMask pos bits := by
  apply Nat.eq_of_testBit_eq
  intro i
  rw [Nat.testBit_shiftLeft, Nat.testBit_shiftRight]
  by_cases low : pos ≤ i
  · rw [decide_eq_true low, Bool.true_and, Nat.add_sub_cancel' low]
  · rw [decide_eq_false low, Bool.false_and, Nat.testBit_and, testBit_fieldMask,
      decide_eq_false (by omega), Bool.and_false]

section Words

variable {posA posB posC bitsA bitsB bitsC a b c : Nat}

/-- A field is read from a word of three fields. -/
theorem read_first (small : a < 2 ^ bitsA) (smallB : b < 2 ^ bitsB) (smallC : c < 2 ^ bitsC)
    (apartB : posB + bitsB ≤ posA ∨ posA + bitsA ≤ posB)
    (apartC : posC + bitsC ≤ posA ∨ posA + bitsA ≤ posC) :
    ((a <<< posA ||| b <<< posB ||| c <<< posC) &&& fieldMask posA bitsA) >>> posA = a := by
  rw [Nat.and_or_distrib_right, Nat.and_or_distrib_right, shiftLeft_and_fieldMask small,
    shiftLeft_and_other smallB apartB, shiftLeft_and_other smallC apartC, Nat.or_zero, Nat.or_zero,
    Nat.shiftLeft_shiftRight]

end Words

end Charis.Lib
