import Mathlib.Data.List.Destutter
import Mathlib.Data.Nat.Digits.Lemmas
import Charis.Browser.HiddenContent
import Charis.Text.Numbers

/-!
# Escaped text

A text of printable characters is shown as it is when the characters that mean something in the
markup are written as references, whatever other characters are written as references too.  Only
its spaces change, and it is cut where the buffer ends.
-/

namespace Charis.Browser

open Charis.Lib Charis.Net Charis.Text

section Numbers

variable {base : Nat}

/-- The digits of a number, without zeros in front. -/
def numeral (base : Nat) (uppercase : Bool) (value : Nat) : List UInt8 :=
  (base.digits value).reverse.map (digitChar uppercase)

/-- The value of a character in `remoteDigits`. -/
def remoteDigit (base : Nat) (ch : UInt8) : Option Nat :=
  if '0'.toUInt8 ≤ ch ∧ ch ≤ '9'.toUInt8 then some (ch.toNat - '0'.toNat)
  else if base = 16 ∧ 'a'.toUInt8 ≤ ch ∧ ch ≤ 'f'.toUInt8 then
    some (ch.toNat - 'a'.toNat + 10)
  else if base = 16 ∧ 'A'.toUInt8 ≤ ch ∧ ch ≤ 'F'.toUInt8 then
    some (ch.toNat - 'A'.toNat + 10)
  else none

theorem remoteDigit_digitChar (known : base = 10 ∨ base = 16) {digit : Nat}
    (below : digit < base) (uppercase : Bool) :
    remoteDigit base (digitChar uppercase digit) = some digit := by
  have decimal : ∀ digit < 10, ∀ uppercase,
      remoteDigit 10 (digitChar uppercase digit) = some digit := by decide
  have hexadecimal : ∀ digit < 16, ∀ uppercase,
      remoteDigit 16 (digitChar uppercase digit) = some digit := by decide
  cases known with
  | inl ten =>
      subst ten
      exact decimal digit below uppercase
  | inr sixteen =>
      subst sixteen
      exact hexadecimal digit below uppercase

/-- A digit is read while the value does not exceed the last code point. -/
theorem remoteDigits_cons (known : base = 10 ∨ base = 16) {value digit : Nat}
    (below : digit < base) (small : value * base + digit ≤ 0x10FFFF) (uppercase : Bool)
    (rest : List UInt8) :
    remoteDigits base value (digitChar uppercase digit :: rest) =
      remoteDigits base (value * base + digit) rest := by
  have read := remoteDigit_digitChar known below uppercase
  rw [remoteDigit] at read
  rw [remoteDigits, read]
  apply if_neg
  intro refused
  cases refused with
  | inl large => exact absurd below (Nat.not_lt.mpr large)
  | inr large =>
      have positive : 0 < base := Nat.zero_lt_of_lt below
      have bounded : value ≤ (0x10FFFF - digit) / base := by
        rw [Nat.le_div_iff_mul_le positive]
        exact Nat.le_sub_of_add_le small
      exact absurd bounded (Nat.not_le.mpr large)

theorem le_foldl_digits (positive : 0 < base) (value : Nat) (digits : List Nat) :
    value ≤ digits.foldl (fun value digit => value * base + digit) value := by
  induction digits generalizing value with
  | nil => exact Nat.le_refl value
  | cons digit digits ih =>
      calc value ≤ value * base := Nat.le_mul_of_pos_right value positive
        _ ≤ value * base + digit := Nat.le_add_right _ _
        _ ≤ _ := ih _

theorem remoteDigits_map (known : base = 10 ∨ base = 16) (uppercase : Bool) {digits : List Nat}
    (below : ∀ digit ∈ digits, digit < base) {value : Nat}
    (small : digits.foldl (fun value digit => value * base + digit) value ≤ 0x10FFFF) :
    remoteDigits base value (digits.map (digitChar uppercase)) =
      some (digits.foldl (fun value digit => value * base + digit) value) := by
  have positive : 0 < base := by
    cases known with
    | inl ten => exact ten ▸ Nat.zero_lt_succ _
    | inr sixteen => exact sixteen ▸ Nat.zero_lt_succ _
  induction digits generalizing value with
  | nil => rfl
  | cons digit digits ih =>
      have grown := le_foldl_digits positive (value * base + digit) digits
      rw [List.map_cons, remoteDigits_cons known (below digit (List.mem_cons_self ..))
        (grown.trans small)]
      exact ih (fun digit mem => below digit (.tail _ mem)) small

theorem remoteDigits_numeral (known : base = 10 ∨ base = 16) (uppercase : Bool) {value : Nat}
    (small : value ≤ 0x10FFFF) :
    remoteDigits base 0 (numeral base uppercase value) = some value := by
  have proper : 1 < base := by
    cases known with
    | inl ten => exact ten ▸ by decide
    | inr sixteen => exact sixteen ▸ by decide
  have read : (base.digits value).reverse.foldl (fun value digit => value * base + digit) 0 =
      value := by
    calc _ = (base.digits value).foldr (fun digit value => digit + base * value) 0 := by
          rw [List.foldl_reverse]
          congr 1
          funext digit value
          rw [Nat.mul_comm, Nat.add_comm]
      _ = Nat.ofDigits base (base.digits value) := (Nat.ofDigits_eq_foldr base _).symm
      _ = value := Nat.ofDigits_digits base value
  rw [numeral, remoteDigits_map known uppercase]
  · rw [read]
  · intro digit mem
    exact Nat.digits_lt_base proper (List.mem_reverse.mp mem)
  · rw [read]
    exact small

theorem numeral_ne_nil {value : Nat} (positive : value ≠ 0) (uppercase : Bool) :
    numeral base uppercase value ≠ [] := by
  intro empty
  rw [numeral, List.map_eq_nil_iff, List.reverse_eq_nil_iff] at empty
  exact Nat.digits_ne_nil_iff_ne_zero.mpr positive empty

theorem remoteNumber_numeral (known : base = 10 ∨ base = 16) (uppercase : Bool) {value : Nat}
    (positive : value ≠ 0) (small : value ≤ 0x10FFFF) :
    remoteNumber base (numeral base uppercase value) = some (remoteCodePoint value) := by
  rw [remoteNumber, if_neg (numeral_ne_nil positive uppercase),
    remoteDigits_numeral known uppercase small]
  apply if_neg
  intro refused
  cases refused with
  | inl zero => exact positive zero
  | inr large => exact absurd small (Nat.not_le.mpr large)

/-- A number has as many digits as fit below it. -/
theorem length_numeral_le (proper : 1 < base) (uppercase : Bool) {value count : Nat}
    (below : value < base ^ count) : (numeral base uppercase value).length ≤ count := by
  rw [numeral, List.length_map, List.length_reverse]
  exact (Nat.digits_length_le_iff proper value).mpr below

theorem exists_digit_of_mem_numeral (proper : 1 < base) {uppercase : Bool} {value : Nat}
    {ch : UInt8} (mem : ch ∈ numeral base uppercase value) :
    ∃ digit < base, ch = digitChar uppercase digit := by
  obtain ⟨digit, digitMem, same⟩ := List.mem_map.mp mem
  exact ⟨digit, Nat.digits_lt_base proper (List.mem_reverse.mp digitMem), same.symm⟩

theorem isNameChar_of_mem_numeral (proper : 1 < base) (le_16 : base ≤ 16) {uppercase : Bool}
    {value : Nat} {ch : UInt8} (mem : ch ∈ numeral base uppercase value) : isNameChar ch := by
  have every : ∀ digit < 16, ∀ uppercase, isNameChar (digitChar uppercase digit) := by decide
  obtain ⟨digit, below, same⟩ := exists_digit_of_mem_numeral proper mem
  rw [same]
  exact every digit (below.trans_le le_16) uppercase

end Numbers

/-- How a character of a text is written in a page.  A character that means something in the
markup is never written as it is but with its name. -/
inductive Spelling where
  | plain
  | decimal
  | hexadecimal (capitalMark capitalDigits : Bool)

/-- A printable character of a text, and how it is written. -/
structure Letter where
  ch : UInt8
  printable : 0x20 ≤ ch ∧ ch ≤ 0x7E
  spelling : Spelling

namespace Letter

/-- The name of a character that means something in the markup. -/
def name (ch : UInt8) : Option (List UInt8) :=
  if ch = '&'.toUInt8 then some (ascii "amp")
  else if ch = '<'.toUInt8 then some (ascii "lt")
  else if ch = '>'.toUInt8 then some (ascii "gt")
  else none

/-- What stands between the ampersand and the semicolon of a reference. -/
def reference (letter : Letter) : Option (List UInt8) :=
  match letter.spelling with
  | .plain => name letter.ch
  | .decimal => some ('#'.toUInt8 :: numeral 10 false letter.ch.toNat)
  | .hexadecimal capitalMark capitalDigits =>
      some ('#'.toUInt8 :: (if capitalMark then 'X'.toUInt8 else 'x'.toUInt8) ::
        numeral 16 capitalDigits letter.ch.toNat)

/-- The letter in a page. -/
def written (letter : Letter) : List UInt8 :=
  match letter.reference with
  | some reference => '&'.toUInt8 :: (reference ++ [';'.toUInt8])
  | none => [letter.ch]

end Letter

/-- The parser takes a reference for a character. -/
structure StandsFor (reference : List UInt8) (ch : UInt8) : Prop where
  named : ∀ other ∈ reference, isNameChar other ∨ other = '#'.toUInt8
  short : reference.length < remoteEntitySize
  decoded : remoteDecodeEntity reference = some ch

theorem remoteCodePoint_printable {ch : UInt8} (printable : 0x20 ≤ ch ∧ ch ≤ 0x7E) :
    remoteCodePoint ch.toNat = ch := by
  revert ch
  decide +kernel

namespace Letter

variable (letter : Letter)

theorem code_ne_zero : letter.ch.toNat ≠ 0 := by
  have := UInt8.le_iff_toNat_le.mp letter.printable.1
  intro zero
  rw [zero] at this
  exact absurd this (by decide)

theorem code_le : letter.ch.toNat ≤ 0x7E := UInt8.le_iff_toNat_le.mp letter.printable.2

theorem standsFor_name {ch : UInt8} {reference : List UInt8} (named : name ch = some reference) :
    StandsFor reference ch := by
  have each : ∀ text ch, (ascii text).all isNameChar →
      (ascii text).length < remoteEntitySize → remoteDecodeEntity (ascii text) = some ch →
      StandsFor (ascii text) ch := by
    intro text ch named short decoded
    exact ⟨fun other mem => .inl (List.all_eq_true.mp named other mem), short, decoded⟩
  unfold name at named
  split at named
  next ampersand =>
    cases named
    exact each "amp" ch (by decide) (by decide) (by rw [ampersand]; decide)
  split at named
  next less =>
    cases named
    exact each "lt" ch (by decide) (by decide) (by rw [less]; decide)
  split at named
  next greater =>
    cases named
    exact each "gt" ch (by decide) (by decide) (by rw [greater]; decide)
  · cases named

theorem remoteDecodeEntity_number (second : UInt8) (digits : List UInt8) :
    remoteDecodeEntity ('#'.toUInt8 :: second :: digits) =
      if second = 'x'.toUInt8 ∨ second = 'X'.toUInt8 then remoteNumber 16 digits
      else remoteNumber 10 (second :: digits) := by
  rw [remoteDecodeEntity.eq_def]
  exact if_pos rfl

/-- A digit is no mark of a hexadecimal number. -/
theorem remoteDecodeEntity_decimal {value : Nat} (positive : value ≠ 0) :
    remoteDecodeEntity ('#'.toUInt8 :: numeral 10 false value) =
      remoteNumber 10 (numeral 10 false value) := by
  have unmarked : ∀ digit < 10,
      ¬ (digitChar false digit = 'x'.toUInt8 ∨ digitChar false digit = 'X'.toUInt8) := by decide
  cases split : numeral 10 false value with
  | nil => exact absurd split (numeral_ne_nil positive false)
  | cons first rest =>
      have mem : first ∈ numeral 10 false value := split ▸ List.mem_cons_self ..
      obtain ⟨digit, below, same⟩ := exists_digit_of_mem_numeral (by decide) mem
      rw [same, remoteDecodeEntity_number, if_neg (unmarked digit below)]

theorem standsFor_decimal :
    StandsFor ('#'.toUInt8 :: numeral 10 false letter.ch.toNat) letter.ch := by
  have small : letter.ch.toNat < 10 ^ 3 := letter.code_le.trans_lt (by decide)
  constructor
  · intro other mem
    cases mem with
    | head => exact .inr rfl
    | tail _ mem => exact .inl (isNameChar_of_mem_numeral (by decide) (by decide) mem)
  · have length := length_numeral_le (by decide) false small
    exact (Nat.succ_le_succ length).trans_lt (by decide)
  · rw [remoteDecodeEntity_decimal letter.code_ne_zero,
      remoteNumber_numeral (.inl rfl) false letter.code_ne_zero
        (letter.code_le.trans (by decide)),
      remoteCodePoint_printable letter.printable]

theorem standsFor_hexadecimal (capitalMark capitalDigits : Bool) :
    StandsFor ('#'.toUInt8 :: (if capitalMark then 'X'.toUInt8 else 'x'.toUInt8) ::
      numeral 16 capitalDigits letter.ch.toNat) letter.ch := by
  have small : letter.ch.toNat < 16 ^ 2 := letter.code_le.trans_lt (by decide)
  constructor
  · intro other mem
    cases mem with
    | head => exact .inr rfl
    | tail _ mem =>
    cases mem with
    | head =>
        cases capitalMark with
        | true => exact .inl (by decide)
        | false => exact .inl (by decide)
    | tail _ mem => exact .inl (isNameChar_of_mem_numeral (by decide) (by decide) mem)
  · have length := length_numeral_le (by decide) capitalDigits small
    exact (Nat.succ_le_succ (Nat.succ_le_succ length)).trans_lt (by decide)
  · have number := remoteNumber_numeral (.inr rfl) capitalDigits letter.code_ne_zero
      (letter.code_le.trans (by decide))
    rw [remoteCodePoint_printable letter.printable] at number
    rw [remoteDecodeEntity_number, if_pos, number]
    cases capitalMark with
    | true => exact .inr rfl
    | false => exact .inl rfl

theorem standsFor {reference : List UInt8} (written : letter.reference = some reference) :
    StandsFor reference letter.ch := by
  unfold Letter.reference at written
  split at written
  · exact standsFor_name written
  · cases written
    exact letter.standsFor_decimal
  · cases written
    exact letter.standsFor_hexadecimal _ _

/-- A letter that is written as it is means nothing in the markup. -/
theorem plain_of_reference (plain : letter.reference = none) :
    letter.ch ≠ '&'.toUInt8 ∧ letter.ch ≠ '<'.toUInt8 := by
  unfold Letter.reference at plain
  split at plain
  · unfold name at plain
    constructor
    · intro ampersand
      rw [if_pos ampersand] at plain
      cases plain
    · intro less
      rw [less] at plain
      cases plain
  · cases plain
  · cases plain

end Letter

/-! ## Letters are shown -/

/-- Characters outside of tags are the items of a page. -/
theorem Mode.items_plain {data : List UInt8} (plain : ∀ ch ∈ data, ch ≠ '<'.toUInt8) :
    Mode.content.items data = data.map Item.char := by
  induction data with
  | nil => rfl
  | cons ch data ih =>
      have outside := plain ch (List.mem_cons_self ..)
      have item : Mode.content.item ch = some (.char ch) := if_neg outside
      have next : Mode.content.next ch = .content := if_neg outside
      rw [Mode.items, item, next, ih fun ch mem => plain ch (.tail _ mem)]
      rfl

namespace Screen

variable {screen : Screen}

/-- Characters are shown one after the other. -/
def shows (screen : Screen) (data : List UInt8) : Screen :=
  (data.map Item.char).foldl display screen

theorem shows_cons (screen : Screen) (ch : UInt8) (data : List UInt8) :
    screen.shows (ch :: data) = (screen.display (.char ch)).shows data := rfl

theorem shows_append (screen : Screen) (data more : List UInt8) :
    screen.shows (data ++ more) = (screen.shows data).shows more := by
  rw [shows, List.map_append, List.foldl_append]
  rfl

/-- What stands between the ampersand and the semicolon is collected. -/
theorem shows_reference (shown : ¬ screen.suppressed) {read reference : List UInt8}
    (collected : screen.entity = some read)
    (named : ∀ ch ∈ reference, isNameChar ch ∨ ch = '#'.toUInt8)
    (short : read.length + reference.length < remoteEntitySize) :
    screen.shows reference = { screen with entity := some (read ++ reference) } := by
  induction reference generalizing screen read with
  | nil =>
      rw [List.append_nil, ← collected]
      rfl
  | cons ch reference ih =>
  rw [List.length_cons, ← Nat.add_assoc, Nat.add_right_comm] at short
  have inside := named ch (List.mem_cons_self ..)
  have proceeds : ch ≠ ';'.toUInt8 := by
    intro semicolon
    rw [semicolon] at inside
    exact absurd inside (by decide)
  have room : read.length + 1 < remoteEntitySize := (Nat.le_add_right _ _).trans_lt short
  have display : screen.display (.char ch) =
      { screen with entity := some (read ++ [ch]) } := by
    rw [Screen.display, if_neg shown, collected]
    exact (if_neg proceeds).trans (if_pos ⟨inside, room⟩)
  have rest := @ih { screen with entity := some (read ++ [ch]) } shown (read ++ [ch]) rfl
    (fun ch mem => named ch (.tail _ mem)) (by rwa [List.length_append, List.length_singleton])
  rw [shows_cons, display, rest, List.append_assoc, List.singleton_append]

theorem shows_standsFor (shown : ¬ screen.suppressed) (outside : screen.entity = none)
    {reference : List UInt8} {ch : UInt8} (stands : StandsFor reference ch) :
    screen.shows ('&'.toUInt8 :: (reference ++ [';'.toUInt8])) =
      { screen with preview := screen.preview.appendTextChar ch } := by
  have opened : screen.display (.char '&'.toUInt8) = { screen with entity := some [] } := by
    rw [Screen.display, if_neg shown, outside]
    exact if_pos rfl
  have short : ([] : List UInt8).length + reference.length < remoteEntitySize := by
    rw [List.length_nil, Nat.zero_add]
    exact stands.short
  have collected := @shows_reference { screen with entity := some [] } shown [] reference rfl
    stands.named short
  have closed : Screen.display { screen with entity := some reference } (.char ';'.toUInt8) =
      { screen with entity := none, preview := screen.preview.appendTextChar ch } := by
    rw [Screen.display, if_neg shown]
    dsimp only
    rw [showInEntity, if_pos rfl, stands.decoded]
  rw [shows_cons, opened, shows_append, collected, List.nil_append, shows_cons, closed, outside]
  rfl

theorem shows_written (shown : ¬ screen.suppressed) (outside : screen.entity = none)
    (letter : Letter) :
    screen.shows letter.written =
      { screen with preview := screen.preview.appendTextChar letter.ch } := by
  unfold Letter.written
  split
  next reference written => exact shows_standsFor shown outside (letter.standsFor written)
  next plain =>
    change screen.display (.char letter.ch) = _
    rw [Screen.display, if_neg shown, outside]
    dsimp only
    rw [showPlain, if_neg (letter.plain_of_reference plain).1, outside]

theorem shows_letters (shown : ¬ screen.suppressed) (outside : screen.entity = none)
    (letters : List Letter) :
    screen.shows (letters.flatMap Letter.written) =
      { screen with
        preview := (letters.map Letter.ch).foldl Preview.appendTextChar screen.preview } := by
  induction letters generalizing screen with
  | nil => rfl
  | cons letter letters ih =>
      have rest := @ih { screen with preview := screen.preview.appendTextChar letter.ch } shown
        outside
      rw [List.flatMap_cons, shows_append, shows_written shown outside, rest]
      rfl

end Screen

theorem Letter.written_plain (letter : Letter) : ∀ ch ∈ letter.written, ch ≠ '<'.toUInt8 := by
  unfold Letter.written
  split
  next reference written =>
    intro ch mem less
    have stands := letter.standsFor written
    rw [less] at mem
    cases mem with
    | tail _ mem =>
        cases List.mem_append.mp mem with
        | inl mem => exact absurd (stands.named _ mem) (by decide)
        | inr mem => exact absurd (List.mem_singleton.mp mem) (by decide)
  next plain =>
    intro ch mem
    rw [List.mem_singleton.mp mem]
    exact (letter.plain_of_reference plain).2

theorem Remote.Marked.preview_letters {remote : Remote} (marked : remote.Marked)
    (neutral : remote.Neutral) (letters : List Letter) :
    (remote.body (some (letters.flatMap Letter.written))).preview =
      (letters.map Letter.ch).foldl Preview.appendTextChar remote.preview := by
  have plain : ∀ ch ∈ letters.flatMap Letter.written, ch ≠ '<'.toUInt8 := by
    intro ch mem
    obtain ⟨letter, _, written⟩ := List.mem_flatMap.mp mem
    exact letter.written_plain ch written
  have screen := (marked.body (letters.flatMap Letter.written)).screen
  rw [neutral.mode, Mode.items_plain plain] at screen
  have shown : ¬ remote.screen.suppressed := Bool.eq_false_iff.mp neutral.suppressContent
  exact congrArg Screen.preview (screen.trans (Screen.shows_letters shown neutral.entity letters))

/-- A text without spaces in front, and with one space where there were several. -/
def collapseSpaces (text : List UInt8) : List UInt8 :=
  (text.dropWhile fun ch => ch = ' '.toUInt8).destutter fun before ch =>
    ¬ (before = ' '.toUInt8 ∧ ch = ' '.toUInt8)

namespace Preview

variable {preview : Preview} {text : List UInt8}

/-- The preview shows a text, as far as there is room for it. -/
structure Shows (preview : Preview) (text : List UInt8) : Prop where
  shown : preview.text.text = text.take (remoteTextSize - 1)
  lastSpace : preview.lastSpace ↔ text.getLast? = some ' '.toUInt8
  visible : ∀ ch ∈ text, 0x20 ≤ ch

theorem Shows.length_eq_zero (shows : preview.Shows text) :
    preview.text.length = 0 ↔ text = [] := by
  rw [← TextBuffer.length_text, shows.shown, List.length_eq_zero_iff, List.take_eq_nil_iff]
  constructor
  · intro empty
    cases empty with
    | inl impossible => exact absurd impossible (by decide)
    | inr empty => exact empty
  · exact .inr

/-- The text has only one line. -/
theorem Shows.last_ne (shows : preview.Shows text) (filled : preview.text.length ≠ 0) :
    preview.text.last ≠ '\n'.toUInt8 := by
  have mem := List.mem_of_getLast? (TextBuffer.last_eq filled)
  rw [shows.shown] at mem
  intro newline
  have visible := shows.visible _ (List.mem_of_mem_take mem)
  rw [newline] at visible
  exact absurd visible (by decide)

/-- A space in front of the text or after a space is left out. -/
theorem Shows.skip (shows : preview.Shows text)
    (spaces : text = [] ∨ text.getLast? = some ' '.toUInt8) :
    preview.appendTextChar ' '.toUInt8 = preview := by
  rw [appendTextChar, if_pos (by decide)]
  apply if_neg
  intro added
  cases spaces with
  | inl empty => exact added.1 (shows.length_eq_zero.mpr empty)
  | inr space => exact added.2.1 (shows.lastSpace.mpr space)

theorem Shows.add (shows : preview.Shows text) {ch : UInt8} (visible : 0x20 ≤ ch)
    (single : ch = ' '.toUInt8 → text ≠ [] ∧ text.getLast? ≠ some ' '.toUInt8) :
    (preview.appendTextChar ch).Shows (text ++ [ch]) := by
  have grown := TextBuffer.text_push_take shows.shown ch
  have allVisible : ∀ other ∈ text ++ [ch], 0x20 ≤ other := by
    intro other mem
    cases List.mem_append.mp mem with
    | inl old => exact shows.visible other old
    | inr new => exact List.mem_singleton.mp new ▸ visible
  have last : (text ++ [ch]).getLast? = some ch := List.getLast?_concat
  by_cases space : ch = ' '.toUInt8
  · have filled : preview.text.length ≠ 0 := by
      intro empty
      exact (single space).1 (shows.length_eq_zero.mp empty)
    have noSpace : ¬ preview.lastSpace := by
      intro lastSpace
      exact (single space).2 (shows.lastSpace.mp lastSpace)
    have shown : preview.appendTextChar ch = { preview.append ch with lastSpace := true } := by
      rw [space, appendTextChar, if_pos (by decide),
        if_pos ⟨filled, noSpace, shows.last_ne filled⟩]
    rw [shown]
    constructor
    · exact grown
    · exact ⟨fun _ => last.trans (congrArg some space), fun _ => rfl⟩
    · exact allVisible
  have noBlank : ¬ isBlank ch := by
    intro blank
    have other : ∀ ch, isBlank ch → 0x20 ≤ ch → ch = ' '.toUInt8 := by decide +kernel
    exact space (other ch blank visible)
  have shown : preview.appendTextChar ch = { preview.append ch with lastSpace := false } := by
    rw [appendTextChar, if_neg noBlank, if_pos visible]
  rw [shown]
  constructor
  · exact grown
  · rw [last]
    constructor
    · intro impossible
      cases impossible
    · intro same
      exact absurd (Option.some.inj same) space
  · exact allVisible

theorem Shows.foldl_concat {start : List UInt8} {before : UInt8}
    (shows : preview.Shows (start ++ [before])) (visible : ∀ ch ∈ text, 0x20 ≤ ch) :
    (text.foldl appendTextChar preview).Shows
      (start ++ text.destutter'
        (fun before ch => ¬ (before = ' '.toUInt8 ∧ ch = ' '.toUInt8)) before) := by
  induction text generalizing preview start before with
  | nil => exact shows
  | cons ch text ih =>
  have rest : ∀ ch ∈ text, 0x20 ≤ ch := fun ch mem => visible ch (.tail _ mem)
  have last : (start ++ [before]).getLast? = some before := List.getLast?_concat
  rw [List.foldl_cons]
  by_cases both : before = ' '.toUInt8 ∧ ch = ' '.toUInt8
  · rw [List.destutter'_cons_neg _ fun apart => apart both, both.2,
      shows.skip (.inr (last.trans (congrArg some both.1)))]
    exact ih shows rest
  · have added := shows.add (visible ch (List.mem_cons_self ..)) (by
      intro space
      constructor
      · exact List.append_ne_nil_of_right_ne_nil _ (List.cons_ne_nil _ _)
      · rw [last]
        intro same
        exact both ⟨Option.some.inj same, space⟩)
    rw [List.destutter'_cons_pos _ both, ← List.singleton_append, ← List.append_assoc]
    exact ih added rest

/-- An empty preview shows the characters with their spaces collapsed. -/
theorem Shows.foldl (shows : preview.Shows []) (visible : ∀ ch ∈ text, 0x20 ≤ ch) :
    (text.foldl appendTextChar preview).Shows (collapseSpaces text) := by
  unfold collapseSpaces
  induction text with
  | nil => exact shows
  | cons ch text ih =>
  have rest : ∀ ch ∈ text, 0x20 ≤ ch := fun ch mem => visible ch (.tail _ mem)
  rw [List.foldl_cons]
  by_cases space : ch = ' '.toUInt8
  · rw [space, shows.skip (.inl rfl), List.dropWhile_cons_of_pos (by decide)]
    exact ih rest
  · have added := shows.add (visible ch (List.mem_cons_self ..)) (absurd · space)
    rw [List.dropWhile_cons_of_neg (by simpa using space), List.destutter_cons']
    exact added.foldl_concat rest

end Preview

theorem Remote.shows_reset (remote : Remote) : remote.reset.preview.Shows [] := by
  constructor
  · rfl
  · constructor
    · intro impossible
      cases impossible
    · intro impossible
      cases impossible
  · intro ch impossible
    cases impossible

theorem Remote.neutral_reset (remote : Remote) : remote.reset.Neutral := ⟨rfl, rfl, rfl, rfl⟩

/-- Printable characters that are fed after a reset are shown as they are, however each of them is
written and however the page is cut, with their spaces collapsed and up to the end of the
buffer. -/
theorem escaped_text_shown (remote : Remote) (letters : List Letter)
    {calls : List (Option (List UInt8))}
    (fed : calls.reduceOption.flatten = letters.flatMap Letter.written) :
    (calls.foldl Remote.body remote.reset).preview.text.text =
        (collapseSpaces (letters.map Letter.ch)).take 2047 ∧
      (calls.foldl Remote.body remote.reset).preview.text.Terminated := by
  have safe := (remoteBody_safe remote calls).1
  have visible : ∀ ch ∈ letters.map Letter.ch, 0x20 ≤ ch := by
    intro ch mem
    obtain ⟨letter, _, same⟩ := List.mem_map.mp mem
    exact same ▸ letter.printable.1
  have preview := (Remote.Marked.reset remote).preview_letters remote.neutral_reset letters
  rw [← fed, ← remote.reset.feed_eq calls] at preview
  constructor
  · rw [preview]
    exact (remote.shows_reset.foldl visible).shown
  · exact safe.preview.terminated

/-- A page that is cut inside of two references, one of them to a space. -/
theorem escaped_text_shown_cut :
    ([some (ascii "  A &am"), none, some (ascii "p;&#3"), some (ascii "2; B'&lt;&#x3E; ")].foldl
      Remote.body Remote.static.reset).preview.text.text = ascii "A & B'<> " := by
  have shown := (escaped_text_shown Remote.static
    [⟨' '.toUInt8, by decide, .plain⟩, ⟨' '.toUInt8, by decide, .plain⟩,
      ⟨'A'.toUInt8, by decide, .plain⟩, ⟨' '.toUInt8, by decide, .plain⟩,
      ⟨'&'.toUInt8, by decide, .plain⟩, ⟨' '.toUInt8, by decide, .decimal⟩,
      ⟨' '.toUInt8, by decide, .plain⟩, ⟨'B'.toUInt8, by decide, .plain⟩,
      ⟨'\''.toUInt8, by decide, .plain⟩, ⟨'<'.toUInt8, by decide, .plain⟩,
      ⟨'>'.toUInt8, by decide, .hexadecimal false true⟩, ⟨' '.toUInt8, by decide, .plain⟩]
    (by decide +kernel :
      [some (ascii "  A &am"), none, some (ascii "p;&#3"),
        some (ascii "2; B'&lt;&#x3E; ")].reduceOption.flatten = _)).1
  exact shown.trans (by decide +kernel)

end Charis.Browser
