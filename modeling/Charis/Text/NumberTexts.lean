import Charis.Lib.Access
import Charis.Text.Numbers

/-!
# Numbers in buffers

The printers write a number into a buffer and the parser reads one from it.  The text of a number
is the only one without leading zeros, whichever printer writes it, up to the case of its letters.

The address zero is the null pointer.
-/

namespace Charis.Text

open Charis.Lib Charis.Lib.Access Charis.Net

/-- A text is the representation of a number in a base, from the first digit on, without a zero
in front of other digits. -/
structure Canonical (base value : Nat) (text : List UInt8) : Prop where
  digits : ∃ digits : List Nat, text = digits.map (digitChar true) ∧ (∀ d ∈ digits, d < base) ∧
    Nat.ofDigits base digits.reverse = value
  ne_nil : text ≠ []
  no_leading : text.head? = some '0'.toUInt8 → text = ['0'.toUInt8]

/-- The upper case of a letter. -/
def upperCase (c : UInt8) : UInt8 := if 'a'.toUInt8 ≤ c ∧ c ≤ 'z'.toUInt8 then c - 32 else c

section Canonical

variable {base value : Nat}

theorem digitChar_eq_zero {digit : Nat} (below : digit < 36) :
    digitChar true digit = '0'.toUInt8 ↔ digit = 0 := by
  have every : ∀ digit < 36, digitChar true digit = '0'.toUInt8 ↔ digit = 0 := by decide
  exact every digit below

theorem upperCase_digitChar {digit : Nat} (below : digit < 36) :
    upperCase (digitChar false digit) = digitChar true digit := by
  have every : ∀ digit < 36, upperCase (digitChar false digit) = digitChar true digit := by
    decide
  exact every digit below

theorem upperCase_digitChar_true {digit : Nat} (below : digit < 36) :
    upperCase (digitChar true digit) = digitChar true digit := by
  have every : ∀ digit < 36, upperCase (digitChar true digit) = digitChar true digit := by
    decide
  exact every digit below

theorem numeral_canonical (two_le : 2 ≤ base) (le_36 : base ≤ 36) :
    Canonical base value (numeral base value) := by
  by_cases zero : value = 0
  · rw [numeral, if_pos zero, zero]
    constructor
    · refine ⟨[0], by decide, ?_, by simp⟩
      intro d member
      rw [List.mem_singleton.mp member]
      exact Nat.lt_of_lt_of_le Nat.zero_lt_two two_le
    · exact List.cons_ne_nil _ _
    · intro _
      rfl
  rw [numeral, if_neg zero]
  have below : ∀ d ∈ Nat.digits base value, d < base :=
    fun d member => Nat.digits_lt_base two_le member
  have filled : Nat.digits base value ≠ [] := Nat.digits_ne_nil_iff_ne_zero.mpr zero
  constructor
  · refine ⟨(Nat.digits base value).reverse, rfl, ?_, ?_⟩
    · intro d member
      exact below d (List.mem_reverse.mp member)
    · rw [List.reverse_reverse, Nat.ofDigits_digits]
  · intro empty
    exact filled (List.reverse_eq_nil_iff.mp (List.map_eq_nil_iff.mp empty))
  · intro leading
    rw [List.head?_map, List.head?_reverse, List.getLast?_eq_some_getLast filled,
      Option.map_some, Option.some_inj, digitChar_eq_zero] at leading
    · exact absurd leading (Nat.getLast_digit_ne_zero base zero)
    · exact (below _ (List.getLast_mem filled)).trans_le le_36

/-- A 64-bit number has 64 digits at most. -/
theorem length_numeral_le (two_le : 2 ≤ base) (small : value < 2 ^ 64) :
    (numeral base value).length ≤ 64 := by
  rw [numeral]
  split
  · simp
  · rw [← kutoaLoop_65 two_le true small]
    exact length_kutoaLoop_le two_le true small

theorem upperCase_kutoaInternal (two_le : 2 ≤ base) (le_36 : base ≤ 36)
    (small : value < 2 ^ 64) :
    (kutoaInternal value base false).map upperCase = numeral base value := by
  rw [kutoaInternal, if_neg (by omega), numeral]
  split
  · decide
  · rw [kutoaLoop_65 two_le false small, List.map_map]
    apply List.map_congr_left
    intro d member
    have below := Nat.digits_lt_base two_le (List.mem_reverse.mp member)
    exact upperCase_digitChar (below.trans_le le_36)

theorem upperCase_numeral (two_le : 2 ≤ base) (le_36 : base ≤ 36) :
    (numeral base value).map upperCase = numeral base value := by
  rw [numeral]
  split
  · decide
  · rw [List.map_map]
    apply List.map_congr_left
    intro d member
    have below := Nat.digits_lt_base two_le (List.mem_reverse.mp member)
    exact upperCase_digitChar_true (below.trans_le le_36)

/-- `kitoa` prints a number that is not negative, or has no sign in its base, in lower case. -/
theorem upperCase_kitoa (two_le : 2 ≤ base) (le_36 : base ≤ 36) (small : value < 2 ^ 64)
    (unsigned : value < 2 ^ 63 ∨ base ≠ 10) :
    (kitoa (Int.bmod value (2 ^ 64)) base).map upperCase = numeral base value ∧
      katoi (kitoa (Int.bmod value (2 ^ 64)) base) base = value := by
  have wraps : Int.bmod value (2 ^ 64) =
      if value < 2 ^ 63 then (value : Int) else value - 2 ^ 64 := by
    rw [Int.bmod_def]
    split <;> split <;> omega
  have back : (Int.bmod value (2 ^ 64) % 2 ^ 64).toNat = value := by
    rw [wraps]
    split <;> omega
  have at_zero : Int.bmod value (2 ^ 64) = 0 → value = 0 := by
    rw [wraps]
    split <;> omega
  have positive : ¬(base = 10 ∧ Int.bmod value (2 ^ 64) < 0) := by
    rw [wraps]
    split <;> omega
  by_cases zero : Int.bmod value (2 ^ 64) = 0
  · have none := at_zero zero
    rw [kitoa, if_neg (by omega), if_pos zero, numeral, if_pos none, none]
    have parsed := katoi_kutoaInternal two_le le_36 false (show 0 < 2 ^ 64 by omega)
    rw [kutoaInternal, if_neg (by omega), if_pos rfl] at parsed
    exact ⟨by decide, parsed⟩
  · rw [kitoa, if_neg (by omega), if_neg zero, if_neg positive, back]
    exact ⟨upperCase_kutoaInternal two_le le_36 small,
      katoi_kutoaInternal two_le le_36 false small⟩

theorem katoi_numeral (two_le : 2 ≤ base) (le_36 : base ≤ 36) (small : value < 2 ^ 64) :
    katoi (numeral base value) base = value := by
  have parsed := katoi_kutoaInternal two_le le_36 true small
  have same : kutoaInternal value base true = kutoa value base := rfl
  rwa [same, kutoa_eq_numeral two_le le_36 small] at parsed

end Canonical

/-- The last loop of the printers: the digits that were collected are copied to the buffer. -/
def copyOut (buf : Nat) : (tmp : List UInt8) → Access Unit
  | [] => store buf 0
  | c :: tmp => do
      store buf c
      copyOut (buf + 1) tmp

/-- `kutoa_internal`. -/
def kutoaInternalAt (value buf base : Nat) (uppercase : Bool) : Access Unit :=
  if buf = 0 then pure ()
  else if base < 2 ∨ 36 < base then store buf 0
  else if value = 0 then do
    store buf '0'.toUInt8
    store (buf + 1) 0
  else copyOut buf (kutoaLoop base uppercase 65 value [])

/-- `kitoa`. -/
def kitoaAt (val : Int) (buf base : Nat) : Access Unit :=
  if buf = 0 then pure ()
  else if base < 2 ∨ 36 < base then store buf 0
  else if val = 0 then do
    store buf '0'.toUInt8
    store (buf + 1) 0
  else if base = 10 ∧ val < 0 then do
    store buf '-'.toUInt8
    kutoaInternalAt (-val).toNat (buf + 1) base false
  else kutoaInternalAt (val % 2 ^ 64).toNat buf base false

/-- `kutoa`. -/
def kutoaAt (val buf base : Nat) : Access Unit :=
  if buf = 0 then pure ()
  else if base < 2 ∨ 36 < base then store buf 0
  else if val = 0 then do
    store buf '0'.toUInt8
    store (buf + 1) 0
  else copyOut buf (kutoaLoop base true 65 val [])

/-- The loop of `katoi`. -/
def katoiLoopAt (base : Nat) : (fuel s result : Nat) → Access Nat
  | 0, _, result => pure result
  | fuel + 1, s, result => do
      let c ← load s
      if c = 0 then pure result
      else
        match charValue c with
        | none => pure result
        | some val =>
            if base ≤ val then pure result
            else katoiLoopAt base fuel (s + 1) ((result * base + val) % 2 ^ 64)

/-- `katoi`. -/
def katoiAt (fuel s base : Nat) : Access Nat :=
  if s = 0 ∨ base < 2 ∨ 36 < base then pure 0 else katoiLoopAt base fuel s 0

/-- A text and the character that ends it are stored in a buffer, and nothing else is touched. -/
structure Writes (buf : Nat) (text : List UInt8) (access : Access Unit) (memory : ByteMemory) :
    Prop where
  spells : Spells (access memory).memory buf text
  unchanged : ∀ address, address < buf ∨ buf + text.length < address →
    (access memory).memory address = memory address
  touched : ∀ address ∈ (access memory).touched, buf ≤ address ∧ address ≤ buf + text.length

section Buffers

variable {buf : Nat} {memory : ByteMemory}

theorem writes_nil : Writes buf [] (store buf 0) memory := by
  constructor
  · exact ByteMemory.writeByte_self _ _ _
  · intro address outside
    exact ByteMemory.writeByte_of_ne (by simp only [List.length_nil] at outside; omega)
  · intro address member
    rw [List.mem_singleton.mp member]
    exact ⟨Nat.le_refl _, Nat.le_refl _⟩

/-- A character is stored in front of a text. -/
theorem writes_cons {c : UInt8} {text : List UInt8} {rest : Access Unit} (filled : c ≠ 0)
    (later : ∀ memory, Writes (buf + 1) text rest memory) :
    Writes buf (c :: text) (store buf c >>= fun _ => rest) memory := by
  have after := later (memory.writeByte buf c)
  constructor
  · refine ⟨?_, filled, after.spells⟩
    exact (after.unchanged buf (.inl (Nat.lt_succ_self buf))).trans
      (ByteMemory.writeByte_self _ _ _)
  · intro address outside
    rw [List.length_cons] at outside
    have kept := after.unchanged address (by omega)
    exact kept.trans (ByteMemory.writeByte_of_ne (by omega))
  · intro address member
    rw [List.length_cons]
    cases List.mem_append.mp member with
    | inl here =>
        rw [List.mem_singleton.mp here]
        omega
    | inr there =>
        have inside := after.touched address there
        omega

theorem writes_copyOut {tmp : List UInt8} (filled : ∀ c ∈ tmp, c ≠ 0) :
    Writes buf tmp (copyOut buf tmp) memory := by
  induction tmp generalizing buf memory with
  | nil => exact writes_nil
  | cons c tmp ih =>
      apply writes_cons (filled c List.mem_cons_self)
      intro memory
      exact ih fun other member => filled other (List.mem_cons_of_mem _ member)

theorem writes_zero :
    Writes buf ['0'.toUInt8] (store buf '0'.toUInt8 >>= fun _ => store (buf + 1) 0) memory :=
  writes_cons (by decide) fun _ => writes_nil

theorem digitChar_ne_zero {digit : Nat} (below : digit < 36) (uppercase : Bool) :
    digitChar uppercase digit ≠ 0 := by
  have every : ∀ digit < 36, ∀ uppercase, digitChar uppercase digit ≠ 0 := by decide
  exact every digit below uppercase

/-- The printers write their texts. -/
theorem writes_kutoaInternalAt (present : buf ≠ 0) (value base : Nat) (uppercase : Bool) :
    Writes buf (kutoaInternal value base uppercase) (kutoaInternalAt value buf base uppercase)
      memory := by
  rw [kutoaInternalAt, if_neg present, kutoaInternal]
  split
  · exact writes_nil
  split
  · exact writes_zero
  · apply writes_copyOut
    refine forall_mem_kutoaLoop (· ≠ 0) (by omega) ?_ ?_
    · intro digit below
      exact digitChar_ne_zero (by omega) uppercase
    · intro c member
      cases member

theorem writes_kutoaAt (present : buf ≠ 0) (val base : Nat) :
    Writes buf (kutoa val base) (kutoaAt val buf base) memory :=
  writes_kutoaInternalAt present val base true

theorem writes_kitoaAt (present : buf ≠ 0) (val : Int) (base : Nat) :
    Writes buf (kitoa val base) (kitoaAt val buf base) memory := by
  rw [kitoaAt, if_neg present, kitoa]
  split
  · exact writes_nil
  split
  · exact writes_zero
  split
  · apply writes_cons (by decide)
    intro memory
    exact writes_kutoaInternalAt (Nat.succ_ne_zero buf) _ base false
  · exact writes_kutoaInternalAt present _ base false

/-- `katoi` reads a text up to its end at most. -/
theorem katoiLoopAt_eq {base fuel s result : Nat} {text : List UInt8}
    (spells : Spells memory s text) (enough : text.length < fuel) :
    (katoiLoopAt base fuel s result memory).value = katoiLoop base result text := by
  induction text generalizing fuel s result with
  | nil =>
      obtain ⟨fuel, rfl⟩ := Nat.exists_eq_succ_of_ne_zero (Nat.ne_of_gt enough)
      have ended : memory s = 0 := spells
      rw [katoiLoopAt, value_load_bind, ended]
      rfl
  | cons c text ih =>
  obtain ⟨fuel, rfl⟩ := Nat.exists_eq_succ_of_ne_zero (Nat.ne_of_gt (Nat.zero_lt_of_lt enough))
  have next := fun result =>
    @ih fuel (s + 1) result spells.2.2 (Nat.lt_of_succ_lt_succ enough)
  rw [katoiLoopAt, value_load_bind, spells.1, if_neg spells.2.1, katoiLoop]
  cases charValue c with
  | none => rfl
  | some val =>
      dsimp only
      split
      · rfl
      · exact next _

theorem katoiAt_eq {base fuel s : Nat} {text : List UInt8} (present : s ≠ 0)
    (spells : Spells memory s text) (enough : text.length < fuel) :
    (katoiAt fuel s base memory).value = katoi text base := by
  rw [katoiAt, katoi]
  by_cases improper : base < 2 ∨ 36 < base
  · rw [if_pos (.inr improper), if_pos improper]
    rfl
  · rw [if_neg (by tauto), if_neg improper]
    exact katoiLoopAt_eq spells enough

end Buffers

/-- The text of `kutoa` is the canonical one, fits into 65 bytes, and is read back by `katoi`.
A number without a sign has the same text in `kitoa` but for the case of its letters, and that
text is read back, too. -/
theorem kutoa_kitoa_agree {base v : Nat} (two_le : 2 ≤ base) (le_36 : base ≤ 36)
    (small : v < 2 ^ 64) {buf : Nat} (present : buf ≠ 0) (memory : ByteMemory) :
    ∃ text,
      Writes buf text (kutoaAt v buf base) memory ∧
      Canonical base v text ∧
      text.length + 1 ≤ 65 ∧
      (∀ fuel, 65 ≤ fuel → (katoiAt fuel buf base (kutoaAt v buf base memory).memory).value = v) ∧
      (v < 2 ^ 63 ∨ base ≠ 10 → ∃ lower,
        Writes buf lower (kitoaAt (Int.bmod v (2 ^ 64)) buf base) memory ∧
        lower.map upperCase = text.map upperCase ∧
        ∀ fuel, 65 ≤ fuel →
          (katoiAt fuel buf base
            (kitoaAt (Int.bmod v (2 ^ 64)) buf base memory).memory).value = v) := by
  have short : (numeral base v).length ≤ 64 := length_numeral_le two_le small
  have upper : Writes buf (kutoa v base) (kutoaAt v buf base) memory :=
    writes_kutoaAt present v base
  rw [kutoa_eq_numeral two_le le_36 small] at upper
  refine ⟨numeral base v, upper, numeral_canonical two_le le_36, Nat.succ_le_succ short, ?_, ?_⟩
  · intro fuel enough
    rw [katoiAt_eq present upper.spells (short.trans_lt enough)]
    exact katoi_numeral two_le le_36 small
  intro unsigned
  have lower : Writes buf (kitoa (Int.bmod v (2 ^ 64)) base)
      (kitoaAt (Int.bmod v (2 ^ 64)) buf base) memory :=
    writes_kitoaAt present (Int.bmod v (2 ^ 64)) base
  obtain ⟨letters, parsed⟩ := upperCase_kitoa two_le le_36 small unsigned
  have same_length : (kitoa (Int.bmod v (2 ^ 64)) base).length = (numeral base v).length := by
    rw [← letters, List.length_map]
  refine ⟨kitoa (Int.bmod v (2 ^ 64)) base, lower, ?_, ?_⟩
  · rw [letters, upperCase_numeral two_le le_36]
  · intro fuel enough
    have fits : (kitoa (Int.bmod v (2 ^ 64)) base).length < fuel := by omega
    rw [katoiAt_eq present lower.spells fits, parsed]

/-- The largest number in base 16. -/
theorem kutoa_kitoa_agree_largest : ∃ text,
    Writes 1 text (kutoaAt (2 ^ 64 - 1) 1 16) (fun _ => 0) ∧
      (katoiAt 65 1 16 (kutoaAt (2 ^ 64 - 1) 1 16 fun _ => 0).memory).value = 2 ^ 64 - 1 := by
  obtain ⟨text, written, -, -, parsed, -⟩ :=
    @kutoa_kitoa_agree 16 (2 ^ 64 - 1) (by decide) (by decide) (by decide) 1 (by decide)
      fun _ => 0
  exact ⟨text, written, parsed 65 (Nat.le_refl 65)⟩

end Charis.Text
