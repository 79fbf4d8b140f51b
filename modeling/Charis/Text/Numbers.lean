import Charis.Net.Wire

/-!
# Numbers as text

The printer of the kernel collects the digits of a number from the last one on, and the parser
reads them from the first one on.  Numbers are those of 64-bit variables.
-/

namespace Charis.Text

open Charis.Net

/-- The character of a digit in `kutoa_internal`. -/
def digitChar (uppercase : Bool) (digit : Nat) : UInt8 :=
  if digit < 10 then '0'.toUInt8 + digit.toUInt8
  else (if uppercase then 'A'.toUInt8 else 'a'.toUInt8) + (digit - 10).toUInt8

/-- The loop of `kutoa_internal` over the digits, before those that it has collected.  The
array for them has room for 65. -/
def kutoaLoop (base : Nat) (uppercase : Bool) :
    (remaining value : Nat) → (tmp : List UInt8) → List UInt8
  | 0, _, tmp => tmp
  | remaining + 1, value, tmp =>
      if value = 0 then tmp
      else
        kutoaLoop base uppercase remaining (value / base)
          (digitChar uppercase (value % base) :: tmp)

/-- `kutoa_internal`. -/
def kutoaInternal (value base : Nat) (uppercase : Bool) : List UInt8 :=
  if base < 2 ∨ 36 < base then []
  else if value = 0 then ['0'.toUInt8]
  else kutoaLoop base uppercase 65 value []

/-- `kitoa`.  Negative numbers have a sign in base 10 only. -/
def kitoa (val : Int) (base : Nat) : List UInt8 :=
  if base < 2 ∨ 36 < base then []
  else if val = 0 then ['0'.toUInt8]
  else if base = 10 ∧ val < 0 then '-'.toUInt8 :: kutoaInternal (-val).toNat base false
  else kutoaInternal (val % 2 ^ 64).toNat base false

/-- `kutoa`. -/
def kutoa (val base : Nat) : List UInt8 :=
  if base < 2 ∨ 36 < base then []
  else if val = 0 then ['0'.toUInt8]
  else kutoaLoop base true 65 val []

/-- The value of a character in `katoi`. -/
def charValue (c : UInt8) : Option Nat :=
  if '0'.toUInt8 ≤ c ∧ c ≤ '9'.toUInt8 then some (c - '0'.toUInt8).toNat
  else if 'a'.toUInt8 ≤ c ∧ c ≤ 'z'.toUInt8 then some ((c - 'a'.toUInt8).toNat + 10)
  else if 'A'.toUInt8 ≤ c ∧ c ≤ 'Z'.toUInt8 then some ((c - 'A'.toUInt8).toNat + 10)
  else none

/-- The loop of `katoi`.  It ends with the first character that is no digit of the base. -/
def katoiLoop (base : Nat) (result : Nat) : List UInt8 → Nat
  | [] => result
  | c :: s =>
      match charValue c with
      | none => result
      | some val =>
          if base ≤ val then result
          else katoiLoop base ((result * base + val) % 2 ^ 64) s

/-- `katoi`. -/
def katoi (s : List UInt8) (base : Nat) : Nat :=
  if base < 2 ∨ 36 < base then 0 else katoiLoop base 0 s

/-- The number that decimal digits stand for behind a number. -/
def decimalFrom (value : Nat) (digits : List UInt8) : Nat :=
  digits.foldl (fun value c => value * 10 + (c.toNat - '0'.toNat)) value

theorem le_decimalFrom {value : Nat} {digits : List UInt8} : value ≤ decimalFrom value digits := by
  induction digits generalizing value with
  | nil => exact Nat.le_refl value
  | cons c digits ih =>
      calc value ≤ value * 10 + (c.toNat - '0'.toNat) := by omega
        _ ≤ decimalFrom value (c :: digits) := ih

section RoundTrip

variable {base : Nat}

theorem charValue_digitChar {digit : Nat} (below : digit < 36) (uppercase : Bool) :
    charValue (digitChar uppercase digit) = some digit := by
  have every : ∀ digit < 36, ∀ uppercase,
      charValue (digitChar uppercase digit) = some digit := by decide
  exact every digit below uppercase

/-- The array for the digits has room for those of every 64-bit number. -/
theorem lt_pow_65 (two_le : 2 ≤ base) {value : Nat} (small : value < 2 ^ 64) :
    value < base ^ 65 :=
  calc value < 2 ^ 64 := small
    _ ≤ 2 ^ 65 := by norm_num
    _ ≤ base ^ 65 := Nat.pow_le_pow_left two_le 65

/-- Reading the digits of a number in front of others is reading on from the number. -/
theorem katoiLoop_kutoaLoop (two_le : 2 ≤ base) (le_36 : base ≤ 36) (uppercase : Bool)
    {remaining value : Nat} (enough : value < base ^ remaining) (small : value < 2 ^ 64)
    (tmp : List UInt8) :
    katoiLoop base 0 (kutoaLoop base uppercase remaining value tmp) =
      katoiLoop base value tmp := by
  induction remaining generalizing value tmp with
  | zero =>
      have : value = 0 := by
        rw [Nat.pow_zero] at enough
        exact Nat.lt_one_iff.mp enough
      rw [this]
      rfl
  | succ remaining ih =>
  rw [kutoaLoop]
  split
  next zero => rw [zero]
  next positive =>
    have digit_lt : value % base < base := Nat.mod_lt value (by omega)
    have fewer : value / base < base ^ remaining :=
      Nat.div_lt_of_lt_mul (by rwa [pow_succ'] at enough)
    rw [ih fewer ((Nat.div_le_self value base).trans_lt small)]
    rw [katoiLoop, charValue_digitChar (digit_lt.trans_le le_36)]
    dsimp only
    rw [if_neg (Nat.not_le.mpr digit_lt), Nat.div_add_mod', Nat.mod_eq_of_lt small]

theorem katoi_kutoaInternal (two_le : 2 ≤ base) (le_36 : base ≤ 36) (uppercase : Bool)
    {value : Nat} (small : value < 2 ^ 64) :
    katoi (kutoaInternal value base uppercase) base = value := by
  have proper : ¬(base < 2 ∨ 36 < base) := by omega
  rw [katoi, if_neg proper, kutoaInternal, if_neg proper]
  split
  next zero =>
    rw [zero, katoiLoop]
    have : charValue '0'.toUInt8 = some 0 := by decide
    rw [this]
    dsimp only
    rw [if_neg (by omega)]
    simp [katoiLoop]
  next positive =>
    exact katoiLoop_kutoaLoop two_le le_36 uppercase (lt_pow_65 two_le small) small []

theorem katoi_kitoa {val : Int} (nonneg : 0 ≤ val) (small : val < 2 ^ 63) :
    katoi (kitoa val 10) 10 = val := by
  rw [kitoa, if_neg (by omega)]
  split
  next zero =>
    rw [zero]
    decide
  next positive =>
    rw [if_neg (by omega), katoi_kutoaInternal (by omega) (by omega) false (by omega)]
    omega

theorem katoi_minus (s : List UInt8) : katoi ('-'.toUInt8 :: s) 10 = 0 := rfl

end RoundTrip

/-- The digits of a number from the first one on. -/
def numeral (base value : Nat) : List UInt8 :=
  if value = 0 then ['0'.toUInt8] else (Nat.digits base value).reverse.map (digitChar true)

section Digits

variable {base : Nat}

theorem kutoaLoop_eq (two_le : 2 ≤ base) (uppercase : Bool) {remaining value : Nat}
    (enough : value < base ^ remaining) (tmp : List UInt8) :
    kutoaLoop base uppercase remaining value tmp =
      (Nat.digits base value).reverse.map (digitChar uppercase) ++ tmp := by
  induction remaining generalizing value tmp with
  | zero =>
      have zero : value = 0 := by
        rw [Nat.pow_zero] at enough
        exact Nat.lt_one_iff.mp enough
      rw [zero, Nat.digits_zero]
      rfl
  | succ remaining ih =>
  rw [kutoaLoop]
  split
  next zero =>
    rw [zero, Nat.digits_zero]
    rfl
  next positive =>
    have fewer : value / base < base ^ remaining :=
      Nat.div_lt_of_lt_mul (by rwa [pow_succ'] at enough)
    rw [ih fewer, Nat.digits_def' two_le (Nat.pos_of_ne_zero positive), List.reverse_cons,
      List.map_append, List.append_assoc]
    rfl

theorem kutoaLoop_65 (two_le : 2 ≤ base) (uppercase : Bool) {value : Nat}
    (small : value < 2 ^ 64) :
    kutoaLoop base uppercase 65 value [] =
      (Nat.digits base value).reverse.map (digitChar uppercase) := by
  rw [kutoaLoop_eq two_le uppercase (lt_pow_65 two_le small), List.append_nil]

/-- `kutoa` prints the digits of a 64-bit number. -/
theorem kutoa_eq_numeral (two_le : 2 ≤ base) (le_36 : base ≤ 36) {value : Nat}
    (small : value < 2 ^ 64) : kutoa value base = numeral base value := by
  rw [kutoa, if_neg (by omega), numeral]
  split
  · rfl
  · exact kutoaLoop_65 two_le true small

/-- A 64-bit number has 64 digits at most. -/
theorem length_kutoaLoop_le (two_le : 2 ≤ base) (uppercase : Bool) {value : Nat}
    (small : value < 2 ^ 64) : (kutoaLoop base uppercase 65 value []).length ≤ 64 := by
  rw [kutoaLoop_65 two_le uppercase small, List.length_map, List.length_reverse,
    Nat.digits_length_le_iff two_le]
  exact small.trans_le (Nat.pow_le_pow_left two_le 64)

end Digits

theorem isDigit_digitChar {digit : Nat} (below : digit < 10) (uppercase : Bool) :
    isDigit (digitChar uppercase digit) = true := by
  have every : ∀ digit < 10, ∀ uppercase,
      isDigit (digitChar uppercase digit) = true := by decide
  exact every digit below uppercase

/-- What holds of the characters of all digits holds of those that are printed. -/
theorem forall_mem_kutoaLoop (p : UInt8 → Prop) {base : Nat} (positive : 0 < base)
    {uppercase : Bool} {remaining value : Nat} {tmp : List UInt8}
    (digits : ∀ digit < base, p (digitChar uppercase digit)) (collected : ∀ c ∈ tmp, p c) :
    ∀ c ∈ kutoaLoop base uppercase remaining value tmp, p c := by
  induction remaining generalizing value tmp with
  | zero => exact collected
  | succ remaining ih =>
  rw [kutoaLoop]
  split
  · exact collected
  · apply ih
    intro c member
    cases member with
    | head => exact digits _ (Nat.mod_lt value positive)
    | tail _ member => exact collected c member

theorem isDigit_of_mem_kutoaInternal {uppercase : Bool} {value : Nat} :
    ∀ c ∈ kutoaInternal value 10 uppercase, isDigit c = true := by
  rw [kutoaInternal, if_neg (by omega)]
  split
  · intro c member
    rw [List.mem_singleton.mp member]
    rfl
  · refine forall_mem_kutoaLoop (isDigit · = true) (by decide) ?_ ?_
    · intro digit below
      exact isDigit_digitChar below uppercase
    · intro c member
      cases member

/-- Only the first character of a decimal number can be a sign. -/
theorem isDigit_of_mem_kitoa {val : Int} (nonneg : 0 ≤ val) :
    ∀ c ∈ kitoa val 10, isDigit c = true := by
  rw [kitoa, if_neg (by omega)]
  split
  · intro c member
    rw [List.mem_singleton.mp member]
    rfl
  · rw [if_neg (by omega)]
    exact isDigit_of_mem_kutoaInternal

theorem kitoa_of_neg {val : Int} (neg : val < 0) :
    kitoa val 10 = '-'.toUInt8 :: kutoaInternal (-val).toNat 10 false := by
  rw [kitoa, if_neg (by omega), if_neg (by omega), if_pos ⟨rfl, neg⟩]

theorem kutoaInternal_ne_nil {uppercase : Bool} {value : Nat} (small : value < 2 ^ 64) :
    kutoaInternal value 10 uppercase ≠ [] := by
  intro empty
  have zero := @katoi_kutoaInternal 10 (by omega) (by omega) uppercase value small
  rw [empty] at zero
  rw [← zero] at empty
  cases empty

theorem kitoa_ne_nil (val : Int) : kitoa val 10 ≠ [] := by
  rw [kitoa, if_neg (by omega)]
  split
  · exact List.cons_ne_nil _ _
  split
  · exact List.cons_ne_nil _ _
  · exact kutoaInternal_ne_nil (by omega)

end Charis.Text
