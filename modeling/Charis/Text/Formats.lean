import Charis.Lib.Access
import Charis.Text.Printf

/-!
# Well-formed formats

A format is printed as it should be if each directive in it is complete: a character says what is
printed, and the width is an `int`.  Where a directive is cut short, the character that ends the
format is taken for that character, and printing goes on behind the format.
-/

namespace Charis.Text

open Charis.Lib Charis.Lib.Traced Charis.Net

/-- A text without a flag in front. -/
def dropFlag (flag : UInt8) (text : List UInt8) : List UInt8 :=
  if text.head? = some flag then text.drop 1 else text

/-- A directive from its width on. -/
def afterFlags (text : List UInt8) : List UInt8 := dropFlag '0'.toUInt8 (dropFlag '-'.toUInt8 text)

/-- The width of a directive. -/
def widthOf (text : List UInt8) : Nat := decimalFrom 0 ((afterFlags text).takeWhile isDigit)

/-- A directive from the character on that says what is printed. -/
def afterLength (text : List UInt8) : List UInt8 :=
  let rest := (afterFlags text).dropWhile isDigit
  if rest.take 2 = ['l'.toUInt8, 'l'.toUInt8] then rest.drop 2 else rest

/-- Every directive of a format is complete. -/
inductive IsFormat : List UInt8 → Prop
  | done : IsFormat []
  | plain {c : UInt8} {text : List UInt8} (ordinary : c ≠ '%'.toUInt8) (rest : IsFormat text) :
      IsFormat (c :: text)
  | percent {text : List UInt8} (rest : IsFormat text) :
      IsFormat ('%'.toUInt8 :: '%'.toUInt8 :: text)
  | directive {text behind : List UInt8} {spec : UInt8}
      (single : text.head? ≠ some '%'.toUInt8) (fits : widthOf text < 2 ^ 31)
      (complete : afterLength text = spec :: behind) (rest : IsFormat behind) :
      IsFormat ('%'.toUInt8 :: text)

/-- The format is read up to a limit, widths are those of an `int`, and `numbuf` is written
within its 66 bytes. -/
def Allowed (limit : Nat) : PrintEvent → Prop
  | .read address => address ≤ limit
  | .width value => -2 ^ 31 ≤ value ∧ value < 2 ^ 31
  | .numbuf index => index < 66
  | .putch _ => True

/-- Printing ends, and nothing else happens than what is allowed, however long it goes on. -/
structure Safe (limit : Nat) (print : (rounds : Nat) → Print Bool) : Prop where
  ends : ∃ rounds, (print rounds).value = true
  allowed : ∀ rounds, Every (Allowed limit) (print rounds)

section Output

variable {limit : Nat}

theorem every_putchAll (str : List UInt8) : Every (Allowed limit) (putchAll str) := by
  induction str with
  | nil => exact every_pure ()
  | cons c str ih => exact every_bind.mpr ⟨every_event.mpr trivial, ih⟩

theorem every_outputPadding {width len : Int} {zero left : Bool} :
    Every (Allowed limit) (outputPadding width zero left len) := by
  rw [outputPadding]
  split
  · exact every_pure ()
  split
  · exact every_putchAll _
  · exact every_pure ()

theorem every_outputPaddingAfter {width len : Int} {left : Bool} :
    Every (Allowed limit) (outputPaddingAfter width left len) := by
  rw [outputPaddingAfter]
  split
  · exact every_pure ()
  · exact every_putchAll _

theorem every_fillNumbuf {text : List UInt8} {out : Nat} (room : out + text.length < 66) :
    Every (Allowed limit) (fillNumbuf out text) := by
  induction text generalizing out with
  | nil => exact every_event.mpr room
  | cons c text ih =>
      rw [List.length_cons] at room
      have here : out < 66 := by omega
      exact every_bind.mpr ⟨every_event.mpr here, ih (by omega)⟩

theorem every_formatUnsigned {value base : Nat} {uppercase : Bool} (small : value < 2 ^ 64) :
    Every (Allowed limit) (formatUnsigned value base uppercase) := by
  have first : Allowed limit (.numbuf 0) := Nat.succ_pos 65
  have second : Allowed limit (.numbuf 1) := Nat.succ_lt_succ (Nat.succ_pos 64)
  rw [formatUnsigned]
  split
  · exact every_bind.mpr ⟨every_event.mpr first, every_pure _⟩
  next proper =>
    split
    · exact every_bind.mpr ⟨every_event.mpr first,
        every_bind.mpr ⟨every_event.mpr second, every_pure _⟩⟩
    · have short := @length_kutoaLoop_le base (by omega) uppercase value small
      exact every_bind.mpr ⟨every_fillNumbuf (by omega), every_pure _⟩

theorem every_formatSigned {value : Int} (small : value.natAbs < 2 ^ 64) :
    Every (Allowed limit) (formatSigned value) := by
  have first : Allowed limit (.numbuf 0) := Nat.succ_pos 65
  have second : Allowed limit (.numbuf 1) := Nat.succ_lt_succ (Nat.succ_pos 64)
  rw [formatSigned]
  split
  · exact every_bind.mpr ⟨every_event.mpr first,
      every_bind.mpr ⟨every_event.mpr second, every_pure _⟩⟩
  · have short := @length_kutoaLoop_le 10 (by decide) false value.natAbs small
    refine every_bind.mpr ⟨every_fillNumbuf ?_, every_pure _⟩
    split
    · rw [List.length_cons]
      omega
    · omega

theorem every_after {d : Directive} {len : Int} :
    Every (Allowed limit)
      (if d.width > len ∧ d.leftAlign = true then outputPaddingAfter d.width d.leftAlign len
      else pure ()) := by
  split
  · exact every_outputPaddingAfter
  · exact every_pure ()

theorem every_padded {d : Directive} {len : Int} {output : Print Unit}
    (every : Every (Allowed limit) output) : Every (Allowed limit) (padded d len output) := by
  rw [padded]
  split
  · exact every_bind.mpr ⟨every_outputPadding, every_bind.mpr ⟨every, every_after⟩⟩
  · exact every_bind.mpr ⟨every, every_after⟩

theorem every_printNumbuf {d : Directive} {negative : Bool} {numbuf : List UInt8} :
    Every (Allowed limit) (printNumbuf d negative numbuf) := by
  rw [printNumbuf]
  split
  · split
    · exact every_bind.mpr ⟨every_event.mpr trivial,
        every_bind.mpr ⟨every_outputPadding, every_putchAll _⟩⟩
    · exact every_bind.mpr ⟨every_outputPadding, every_putchAll _⟩
  · exact every_putchAll _

theorem every_printSigned {d : Directive} {value : Int} (small : value.natAbs < 2 ^ 64) :
    Every (Allowed limit) (printSigned d value) :=
  every_bind.mpr ⟨every_formatSigned small, every_bind.mpr ⟨every_printNumbuf, every_after⟩⟩

theorem every_printUnsigned {d : Directive} {value base : Nat} {uppercase : Bool}
    (small : value < 2 ^ 64) : Every (Allowed limit) (printUnsigned d value base uppercase) :=
  every_bind.mpr ⟨every_formatUnsigned small, every_padded (every_putchAll _)⟩

/-- A conversion does what is allowed whatever its argument is. -/
theorem every_convert {args : Nat → Argument} {next : Nat} {d : Directive} :
    Every (Allowed limit) (convert args next d) := by
  have unsigned_lt : (if d.longLong then (args next).longLong.toNat else (args next).int.toNat) <
      2 ^ 64 := by
    split
    · exact (args next).longLong.isLt
    · exact (args next).int.isLt.trans (by decide)
  have signed_lt : (if d.longLong then (args next).longLong.toInt
      else (args next).int.toInt).natAbs < 2 ^ 64 := by
    have long := (args next).longLong.toInt_lt
    have long' := (args next).longLong.le_toInt
    have int := (args next).int.toInt_lt
    have int' := (args next).int.le_toInt
    split <;> omega
  rw [convert]
  split
  · exact every_bind.mpr ⟨every_padded (every_putchAll _), every_pure _⟩
  split
  · exact every_bind.mpr ⟨every_padded (every_event.mpr trivial), every_pure _⟩
  split
  · exact every_bind.mpr ⟨every_printSigned signed_lt, every_pure _⟩
  split
  · exact every_bind.mpr ⟨every_printUnsigned unsigned_lt, every_pure _⟩
  split
  · exact every_bind.mpr ⟨every_printUnsigned unsigned_lt, every_pure _⟩
  split
  · exact every_bind.mpr ⟨every_formatUnsigned (args next).pointer.isLt,
      every_bind.mpr ⟨every_padded (every_bind.mpr ⟨every_putchAll _, every_putchAll _⟩),
        every_pure _⟩⟩
  · exact every_bind.mpr ⟨every_event.mpr trivial, every_pure _⟩

end Output

/-! ## Directives -/

/-- The rest of a format is at an address, and the format ends at a limit. -/
structure Rest (memory : ByteMemory) (limit p : Nat) (text : List UInt8) : Prop where
  spells : Spells memory p text
  length : p + text.length = limit

section Directives

variable {memory : ByteMemory} {limit p rounds : Nat} {text : List UInt8} {c flag : UInt8}

theorem Rest.le (rest : Rest memory limit p text) : p ≤ limit := by
  rw [← rest.length]
  exact Nat.le_add_right p _

theorem Rest.ended (rest : Rest memory limit p []) : memory p = 0 := rest.spells

theorem Rest.head (rest : Rest memory limit p (c :: text)) : memory p = c := rest.spells.1

theorem Rest.tail (rest : Rest memory limit p (c :: text)) : Rest memory limit (p + 1) text := by
  refine ⟨rest.spells.2.2, ?_⟩
  have length := rest.length
  rw [List.length_cons] at length
  omega

@[simp] theorem every_readFormat :
    Every (Allowed limit) (readFormat memory p) ↔ p ≤ limit := List.forall_mem_singleton

theorem Rest.every_read (rest : Rest memory limit p text) :
    Every (Allowed limit) (readFormat memory p) := every_readFormat.mpr rest.le

@[simp] theorem value_readFormat : (readFormat memory p).value = memory p := rfl

theorem Rest.head?_eq_iff (rest : Rest memory limit p text) (filled : flag ≠ 0) :
    text.head? = some flag ↔ memory p = flag := by
  cases text with
  | nil =>
      rw [rest.ended]
      exact ⟨nofun, fun zero => absurd zero.symm filled⟩
  | cons c text => rw [rest.head, List.head?_cons, Option.some_inj]

theorem parseFlag_spec (rest : Rest memory limit p text) (filled : flag ≠ 0) :
    Rest memory limit (parseFlag memory flag p).value.2 (dropFlag flag text) ∧
      Every (Allowed limit) (parseFlag memory flag p) := by
  rw [parseFlag, dropFlag, value_bind, value_readFormat, every_bind, value_readFormat]
  by_cases here : memory p = flag
  · have first := (rest.head?_eq_iff filled).mpr here
    obtain ⟨text, rfl⟩ := List.head?_eq_some_iff.mp first
    rw [if_pos here, if_pos first]
    exact ⟨rest.tail, rest.every_read, every_pure _⟩
  · rw [if_neg here, if_neg (fun first => here ((rest.head?_eq_iff filled).mp first))]
    exact ⟨rest, rest.every_read, every_pure _⟩

theorem parseWidth_rest (rest : Rest memory limit p text) {width result : Int} {p' : Nat}
    (parsed : (parseWidth memory rounds p width).value = some (result, p')) :
    Rest memory limit p' (text.dropWhile isDigit) := by
  induction rounds generalizing p text width with
  | zero => cases parsed
  | succ rounds ih =>
  rw [parseWidth, value_bind, value_readFormat] at parsed
  cases text with
  | nil =>
      rw [rest.ended, if_neg (by decide)] at parsed
      obtain ⟨-, rfl⟩ := Prod.mk.inj (Option.some_inj.mp parsed)
      exact rest
  | cons c text =>
  rw [rest.head] at parsed
  by_cases digit : isDigit c = true
  · rw [if_pos digit] at parsed
    rw [List.dropWhile_cons_of_pos digit]
    exact ih rest.tail parsed
  · rw [if_neg digit] at parsed
    rw [List.dropWhile_cons_of_neg digit]
    obtain ⟨-, rfl⟩ := Prod.mk.inj (Option.some_inj.mp parsed)
    exact rest

theorem parseWidth_ends (rest : Rest memory limit p text) {width : Int}
    (enough : text.length < rounds) : (parseWidth memory rounds p width).value.isSome := by
  induction rounds generalizing p text width with
  | zero => cases enough
  | succ rounds ih =>
  rw [parseWidth, value_bind, value_readFormat]
  cases text with
  | nil =>
      rw [rest.ended, if_neg (by decide)]
      rfl
  | cons c text =>
  rw [rest.head]
  by_cases digit : isDigit c = true
  · rw [if_pos digit]
    exact ih rest.tail (Nat.lt_of_succ_lt_succ enough)
  · rw [if_neg digit]
    rfl

theorem width_digit {width digit : Nat} (small : width * 10 + digit < 2 ^ 31) :
    Allowed limit (.width (width * 10 + digit)) ∧
      Int.bmod (width * 10 + digit) (2 ^ 32) = (width * 10 + digit : Nat) := by
  refine ⟨⟨by omega, by omega⟩, ?_⟩
  rw [Int.bmod_def]
  split <;> omega

/-- A width that is an `int` has been one all the time. -/
theorem every_parseWidth (rest : Rest memory limit p text) {width : Nat}
    (fits : decimalFrom width (text.takeWhile isDigit) < 2 ^ 31) :
    Every (Allowed limit) (parseWidth memory rounds p width) := by
  induction rounds generalizing p text width with
  | zero => exact every_pure _
  | succ rounds ih =>
  rw [parseWidth, every_bind, value_readFormat]
  refine ⟨rest.every_read, ?_⟩
  cases text with
  | nil =>
      rw [rest.ended, if_neg (by decide)]
      exact every_pure _
  | cons c text =>
  rw [rest.head]
  by_cases digit : isDigit c = true
  · rw [List.takeWhile_cons_of_pos digit] at fits
    have small : width * 10 + (c.toNat - '0'.toNat) < 2 ^ 31 :=
      (le_decimalFrom).trans_lt fits
    obtain ⟨inside, kept⟩ := @width_digit limit _ _ small
    rw [if_pos digit]
    refine every_bind.mpr ⟨every_event.mpr inside, ?_⟩
    rw [kept]
    exact ih rest.tail fits
  · rw [if_neg digit]
    exact every_pure _

/-- A width that is not an `int` is noticed. -/
theorem fits_of_every (rest : Rest memory limit p text) {width : Nat} (small : width < 2 ^ 31)
    (ended : (parseWidth memory rounds p width).value.isSome)
    (every : Every (Allowed limit) (parseWidth memory rounds p width)) :
    decimalFrom width (text.takeWhile isDigit) < 2 ^ 31 := by
  induction rounds generalizing p text width with
  | zero => cases ended
  | succ rounds ih =>
  cases text with
  | nil => exact small
  | cons c text =>
  rw [parseWidth, every_bind, value_readFormat, rest.head] at every
  rw [parseWidth, value_bind, value_readFormat, rest.head] at ended
  by_cases digit : isDigit c = true
  · rw [if_pos digit] at every ended
    obtain ⟨inside, later⟩ := every_bind.mp every.2
    have next : width * 10 + (c.toNat - '0'.toNat) < 2 ^ 31 := by
      have below := (every_event.mp inside).2
      omega
    obtain ⟨-, kept⟩ := @width_digit limit _ _ next
    rw [kept] at later
    rw [value_bind, kept] at ended
    rw [List.takeWhile_cons_of_pos digit]
    exact ih rest.tail next ended later
  · rw [List.takeWhile_cons_of_neg digit]
    exact small

theorem take_two_eq {a b : UInt8} :
    text.take 2 = [a, b] ↔ text.head? = some a ∧ (text.drop 1).head? = some b := by
  match text with
  | [] => exact ⟨nofun, nofun⟩
  | [c] => exact ⟨nofun, nofun⟩
  | c :: d :: text => simp

theorem parseLongLong_spec (rest : Rest memory limit p text) :
    Rest memory limit (parseLongLong memory p).value.2
        (if text.take 2 = ['l'.toUInt8, 'l'.toUInt8] then text.drop 2 else text) ∧
      Every (Allowed limit) (parseLongLong memory p) := by
  rw [parseLongLong, value_bind, value_readFormat, every_bind, value_readFormat]
  by_cases first : memory p = 'l'.toUInt8
  · have here := (rest.head?_eq_iff (by decide)).mpr first
    obtain ⟨text, rfl⟩ := List.head?_eq_some_iff.mp here
    rw [if_pos first, value_bind, value_readFormat, every_bind, value_readFormat]
    by_cases second : memory (p + 1) = 'l'.toUInt8
    · have there := (rest.tail.head?_eq_iff (by decide)).mpr second
      obtain ⟨text, rfl⟩ := List.head?_eq_some_iff.mp there
      have both := take_two_eq.mpr ⟨here, there⟩
      rw [if_pos second, if_pos both]
      exact ⟨rest.tail.tail, rest.every_read, rest.tail.every_read, every_pure _⟩
    · have single : ('l'.toUInt8 :: text).take 2 ≠ ['l'.toUInt8, 'l'.toUInt8] := by
        intro both
        exact second ((rest.tail.head?_eq_iff (by decide)).mp (take_two_eq.mp both).2)
      rw [if_neg second, if_neg single]
      exact ⟨rest, rest.every_read, rest.tail.every_read, every_pure _⟩
  · have other : text.take 2 ≠ ['l'.toUInt8, 'l'.toUInt8] := by
      intro both
      exact first ((rest.head?_eq_iff (by decide)).mp (take_two_eq.mp both).1)
    rw [if_neg first, if_neg other]
    exact ⟨rest, rest.every_read, every_pure _⟩

/-- A directive is its flags, its width and the rest. -/
theorem parseDirective_eq (rest : Rest memory limit p text) :
    ∃ left zero p', Rest memory limit p' (afterFlags text) ∧
      (parseDirective memory rounds p).value =
        (parseSpec memory left zero (parseWidth memory rounds p' 0).value).value ∧
      (Every (Allowed limit) (parseDirective memory rounds p) ↔
        Every (Allowed limit) (parseWidth memory rounds p' 0) ∧
        Every (Allowed limit)
          (parseSpec memory left zero (parseWidth memory rounds p' 0).value)) := by
  obtain ⟨rest₁, every₁⟩ := parseFlag_spec rest (show '-'.toUInt8 ≠ 0 by decide)
  obtain ⟨rest₂, every₂⟩ := parseFlag_spec rest₁ (show '0'.toUInt8 ≠ 0 by decide)
  refine ⟨_, _, _, rest₂, rfl, ?_⟩
  rw [parseDirective, every_bind]
  refine Iff.trans (and_iff_right every₁) ?_
  dsimp only
  rw [every_bind]
  refine Iff.trans (and_iff_right every₂) ?_
  exact every_bind

theorem parseSpec_spec (rest : Rest memory limit p text) (left zero : Bool) (width : Int) :
    Every (Allowed limit) (parseSpec memory left zero (some (width, p))) ∧
      ∃ d q, (parseSpec memory left zero (some (width, p))).value = some (d, q + 1) ∧
        Rest memory limit q
          (if text.take 2 = ['l'.toUInt8, 'l'.toUInt8] then text.drop 2 else text) := by
  obtain ⟨behind, every⟩ := parseLongLong_spec rest
  constructor
  · exact every_bind.mpr ⟨every, every_bind.mpr ⟨behind.every_read, every_pure _⟩⟩
  · exact ⟨_, _, rfl, behind⟩

theorem parseDirective_rest (rest : Rest memory limit p text) {d : Directive} {p' : Nat}
    (parsed : (parseDirective memory rounds p).value = some (d, p')) :
    ∃ q, p' = q + 1 ∧ Rest memory limit q (afterLength text) := by
  obtain ⟨left, zero, p₂, rest₂, value, -⟩ := @parseDirective_eq memory limit p rounds text rest
  rw [value] at parsed
  cases width : (parseWidth memory rounds p₂ 0).value with
  | none =>
      rw [width] at parsed
      cases parsed
  | some pair =>
      obtain ⟨_, p₃, q, result, behind⟩ := parseSpec_spec (parseWidth_rest rest₂ width) left zero
        pair.1
      rw [width] at parsed
      obtain ⟨-, rfl⟩ := Prod.mk.inj (Option.some_inj.mp (parsed.symm.trans result))
      exact ⟨q, rfl, behind⟩

theorem length_dropFlag_le : (dropFlag flag text).length ≤ text.length := by
  rw [dropFlag]
  split
  · exact (List.drop_sublist 1 text).length_le
  · exact Nat.le_refl _

theorem length_afterFlags_le (text : List UInt8) : (afterFlags text).length ≤ text.length :=
  length_dropFlag_le.trans length_dropFlag_le

theorem parseDirective_ends (rest : Rest memory limit p text) (enough : text.length < rounds) :
    ∃ d p', (parseDirective memory rounds p).value = some (d, p') := by
  obtain ⟨left, zero, p₂, rest₂, value, -⟩ := @parseDirective_eq memory limit p rounds text rest
  obtain ⟨pair, width⟩ := Option.isSome_iff_exists.mp
    (parseWidth_ends rest₂ ((length_afterFlags_le text).trans_lt enough))
  obtain ⟨-, d, q, result, -⟩ := parseSpec_spec (parseWidth_rest rest₂ (width.trans rfl)) left zero
    pair.1
  refine ⟨d, q + 1, ?_⟩
  rw [value, width]
  exact result

/-- A width that is an `int` does no harm. -/
theorem every_parseDirective (rest : Rest memory limit p text) (fits : widthOf text < 2 ^ 31) :
    Every (Allowed limit) (parseDirective memory rounds p) := by
  obtain ⟨left, zero, p₂, rest₂, -, every⟩ := @parseDirective_eq memory limit p rounds text rest
  refine every.mpr ⟨every_parseWidth rest₂ fits, ?_⟩
  cases width : (parseWidth memory rounds p₂ 0).value with
  | none => exact every_pure _
  | some pair => exact (parseSpec_spec (parseWidth_rest rest₂ width) left zero pair.1).1

/-- A directive that was parsed without harm has a width that is an `int`. -/
theorem widthOf_lt (rest : Rest memory limit p text) {parsed : Directive × Nat}
    (ended : (parseDirective memory rounds p).value = some parsed)
    (every : Every (Allowed limit) (parseDirective memory rounds p)) : widthOf text < 2 ^ 31 := by
  obtain ⟨left, zero, p₂, rest₂, value, parts⟩ :=
    @parseDirective_eq memory limit p rounds text rest
  apply fits_of_every rest₂ (Nat.two_pow_pos 31) _ (parts.mp every).1
  cases width : (parseWidth memory rounds p₂ 0).value with
  | none =>
      rw [value, width] at ended
      cases ended
  | some pair => rfl

end Directives

section Runs

variable {memory : ByteMemory} {limit p rounds next : Nat} {text : List UInt8}
  {args : Nat → Argument}

theorem length_afterLength_le (text : List UInt8) : (afterLength text).length ≤ text.length := by
  have flags := length_afterFlags_le text
  have digits := (List.dropWhile_sublist isDigit : List.Sublist _ (afterFlags text)).length_le
  rw [afterLength]
  split
  · rw [List.length_drop]
    omega
  · omega

/-- A run that ends has read something. -/
theorem le_of_every (ended : (kvprintfLoop memory args rounds p next).value = true)
    (every : Every (Allowed limit) (kvprintfLoop memory args rounds p next)) : p ≤ limit := by
  cases rounds with
  | zero => cases ended
  | succ rounds =>
      rw [kvprintfLoop, every_bind, every_readFormat] at every
      exact every.1

/-- A format is printed without harm, and a round for each of its characters is enough. -/
theorem every_kvprintfLoop (format : IsFormat text) (rest : Rest memory limit p text) :
    Every (Allowed limit) (kvprintfLoop memory args rounds p next) ∧
      (text.length < rounds → (kvprintfLoop memory args rounds p next).value = true) := by
  induction format generalizing p rounds next with
  | done =>
      cases rounds with
      | zero => exact ⟨every_pure _, nofun⟩
      | succ rounds =>
          rw [kvprintfLoop, value_bind, every_bind, value_readFormat, rest.ended, if_pos rfl]
          exact ⟨⟨rest.every_read, every_pure _⟩, fun _ => rfl⟩
  | @plain c text ordinary format ih =>
      cases rounds with
      | zero => exact ⟨every_pure _, nofun⟩
      | succ rounds =>
      obtain ⟨every, ends⟩ := ih rest.tail
      rw [kvprintfLoop, value_bind, every_bind, value_readFormat, rest.head,
        if_neg rest.spells.2.1, if_pos ordinary]
      refine ⟨⟨rest.every_read, every_bind.mpr ⟨every_event.mpr trivial, every⟩⟩, ?_⟩
      intro enough
      exact ends (Nat.lt_of_succ_lt_succ enough)
  | @percent text format ih =>
      cases rounds with
      | zero => exact ⟨every_pure _, nofun⟩
      | succ rounds =>
      obtain ⟨every, ends⟩ := ih rest.tail.tail
      rw [kvprintfLoop, value_bind, every_bind, value_readFormat, rest.head,
        if_neg rest.spells.2.1, if_neg (not_not.mpr rfl), value_bind, every_bind,
        value_readFormat, rest.tail.head, if_pos rfl]
      refine ⟨⟨rest.every_read, rest.tail.every_read,
        every_bind.mpr ⟨every_event.mpr trivial, every⟩⟩, ?_⟩
      intro enough
      simp only [List.length_cons] at enough
      exact ends (by omega)
  | @directive text behind spec single fits complete format ih =>
  cases rounds with
  | zero => exact ⟨every_pure _, nofun⟩
  | succ rounds =>
  have other : memory (p + 1) ≠ '%'.toUInt8 :=
    fun here => single ((rest.tail.head?_eq_iff (by decide)).mpr here)
  rw [kvprintfLoop, value_bind, every_bind, value_readFormat, rest.head,
    if_neg rest.spells.2.1, if_neg (not_not.mpr rfl), value_bind, every_bind,
    value_readFormat, if_neg other, value_bind, every_bind]
  have parses := @every_parseDirective memory limit (p + 1) rounds text rest.tail fits
  cases parsed : (parseDirective memory rounds (p + 1)).value with
  | none =>
      refine ⟨⟨rest.every_read, rest.tail.every_read, parses, every_pure _⟩, ?_⟩
      intro enough
      obtain ⟨d, p', result⟩ :=
        parseDirective_ends rest.tail (Nat.lt_of_succ_lt_succ enough)
      rw [parsed] at result
      cases result
  | some pair =>
  obtain ⟨d, p'⟩ := pair
  obtain ⟨q, rfl, there⟩ := parseDirective_rest rest.tail parsed
  have shorter := length_afterLength_le text
  rw [complete] at there shorter
  obtain ⟨every, ends⟩ := @ih (q + 1) rounds (convert args next d).value there.tail
  refine ⟨⟨rest.every_read, rest.tail.every_read, parses,
    every_bind.mpr ⟨every_convert, every⟩⟩, ?_⟩
  intro enough
  rw [List.length_cons] at enough shorter
  exact ends (by omega)

theorem isFormat_of_ended (rest : Rest memory limit p text)
    (ended : (kvprintfLoop memory args rounds p next).value = true)
    (every : Every (Allowed limit) (kvprintfLoop memory args rounds p next)) : IsFormat text := by
  induction rounds generalizing p text next with
  | zero => cases ended
  | succ rounds ih =>
  cases text with
  | nil => exact .done
  | cons c text =>
  rw [kvprintfLoop, value_bind, value_readFormat, rest.head,
    if_neg rest.spells.2.1] at ended
  rw [kvprintfLoop, every_bind, value_readFormat, rest.head,
    if_neg rest.spells.2.1] at every
  by_cases percent : c = '%'.toUInt8
  · subst percent
    rw [if_neg (not_not.mpr rfl), value_bind, value_readFormat] at ended
    rw [if_neg (not_not.mpr rfl), every_bind, value_readFormat] at every
    by_cases second : memory (p + 1) = '%'.toUInt8
    · have here := (rest.tail.head?_eq_iff (by decide)).mpr second
      obtain ⟨text, rfl⟩ := List.head?_eq_some_iff.mp here
      rw [if_pos second] at ended every
      exact .percent (ih rest.tail.tail ended (every_bind.mp every.2.2).2)
    rw [if_neg second, value_bind] at ended
    rw [if_neg second, every_bind] at every
    cases parsed : (parseDirective memory rounds (p + 1)).value with
    | none =>
        rw [parsed] at ended
        cases ended
    | some pair =>
    obtain ⟨d, p'⟩ := pair
    rw [parsed] at ended every
    obtain ⟨q, rfl, there⟩ := parseDirective_rest rest.tail parsed
    have later := (every_bind.mp every.2.2.2).2
    cases complete : afterLength text with
    | nil =>
        rw [complete] at there
        have inside := le_of_every ended later
        have length := there.length
        rw [List.length_nil] at length
        omega
    | cons spec behind =>
        rw [complete] at there
        have single : text.head? ≠ some '%'.toUInt8 := fun here =>
          second ((rest.tail.head?_eq_iff (by decide)).mp here)
        exact .directive single (widthOf_lt rest.tail parsed every.2.2.1) complete
          (ih there.tail ended later)
  · rw [if_pos percent] at ended every
    exact .plain percent (ih rest.tail ended (every_bind.mp every.2).2)

end Runs

/-- A format is printed as it should be if and only if each directive in it is complete. -/
theorem kvprintf_safe_iff {memory : ByteMemory} {fmt : Nat} {text : List UInt8}
    (present : fmt ≠ 0) (spells : Spells memory fmt text) (args : Nat → Argument) :
    Safe (fmt + text.length) (fun rounds => kvprintf memory rounds fmt args) ↔ IsFormat text := by
  have whole : Rest memory (fmt + text.length) fmt text := ⟨spells, rfl⟩
  have loop : ∀ rounds, kvprintf memory rounds fmt args = kvprintfLoop memory args rounds fmt 0 :=
    fun _ => if_neg present
  constructor
  · intro safe
    obtain ⟨rounds, ended⟩ := safe.ends
    have every := safe.allowed rounds
    rw [loop] at ended every
    exact isFormat_of_ended whole ended every
  · intro format
    constructor
    · refine ⟨text.length + 1, ?_⟩
      rw [loop]
      exact (every_kvprintfLoop format whole).2 (Nat.lt_succ_self _)
    · intro rounds
      rw [loop]
      exact (every_kvprintfLoop format whole).1

/-- A number with a width and a flag. -/
theorem kvprintf_safe_iff_width :
    Safe (1 + [0x25, 0x2D, 0x35, 0x64].length) fun rounds =>
      kvprintf (fun address => [0x25, 0x2D, 0x35, 0x64].getD (address - 1) 0) rounds 1
        fun _ => ⟨none, 7, 0, 0⟩ := by
  refine (@kvprintf_safe_iff _ 1 [0x25, 0x2D, 0x35, 0x64] (by decide) ?_ _).mpr ?_
  · simp [Spells]
  · exact @IsFormat.directive [0x2D, 0x35, 0x64] [] 0x64 (by decide) (by decide) (by decide) .done

/-- A percent sign at the end of a format: a character behind the format is read. -/
theorem not_kvprintf_safe :
    ¬∀ (memory : ByteMemory) (fmt : Nat) (text : List UInt8) (args : Nat → Argument), fmt ≠ 0 →
        Spells memory fmt text →
        Safe (fmt + text.length) fun rounds => kvprintf memory rounds fmt args := by
  intro claimed
  have safe := claimed (fun address => if address = 1 then '%'.toUInt8 else 0) 1 ['%'.toUInt8]
    (fun _ => ⟨none, 0, 0, 0⟩) (by decide) ⟨rfl, by decide, rfl⟩
  have beyond : PrintEvent.read 3 ∈
      (kvprintf (fun address => if address = 1 then '%'.toUInt8 else 0) 2 1
        fun _ => ⟨none, 0, 0, 0⟩).events := by decide
  have inside : 3 ≤ 1 + ['%'.toUInt8].length := safe.allowed 2 _ beyond
  exact absurd inside (by decide)

end Charis.Text
