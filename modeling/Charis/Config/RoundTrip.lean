import Charis.Config.Store

/-!
# Saving and loading the configuration

The text of a table is read back line by line, and behind it what the file had there before
and what was left on the stack.  A saved value is the one that is loaded when the last line
behind the text that assigns its key says so, or when there is none and the value is one that
the parser tells from the others.
-/

namespace Charis.Config

open Charis.Net Charis.Text

/-- A text that is one line and has no blanks around it. -/
structure PlainText (text : List UInt8) : Prop where
  oneLine : ∀ c ∈ text, isLineEnd c = false
  first : ∀ c ∈ text.head?, isBlank c = false
  last : ∀ c ∈ text.getLast?, isBlank c = false

/-- A key that the parser reads as a key. -/
structure PlainKey (key : List UInt8) : Prop where
  nonempty : key ≠ []
  short : key.length < keyMax
  plain : ∀ c ∈ key, isBlank c = false ∧ c ≠ 0 ∧ c ≠ '='.toUInt8
  noComment : key.head? ≠ some '#'.toUInt8

/-- A value that fits into an entry and into a line. -/
def Representable : Value → Prop
  | .int value => -2 ^ 31 ≤ value ∧ value < 2 ^ 31
  | .bool _ => True
  | .string text => text.length < valueMax ∧ PlainText text

/-- The line of an entry. -/
def lineText (entry : Entry) : List UInt8 := entry.key ++ '='.toUInt8 :: display entry.value

/-- The text of a table. -/
def serialised (entries : List Entry) : List UInt8 :=
  entries.flatMap fun entry => lineText entry ++ ['\n'.toUInt8]

/-- A table that can be saved and leaves room for the defaults. -/
structure Storable (entries : List Entry) : Prop where
  count : entries.length ≤ 59
  distinct : (entries.map Entry.key).Nodup
  keys : ∀ entry ∈ entries, PlainKey entry.key
  values : ∀ entry ∈ entries, Representable entry.value
  short : (serialised entries).length < 4000

/-- The parser tells a value from those of other types, and it does not lose its sign. -/
def Survives : Value → Prop
  | .int value => 0 ≤ value
  | .bool _ => True
  | .string text =>
      text ≠ ascii "true" ∧ text ≠ ascii "false" ∧ (isInt text = true → text = [])

instance : DecidablePred Survives
  | .int value => inferInstanceAs (Decidable (0 ≤ value))
  | .bool _ => inferInstanceAs (Decidable True)
  | .string text => inferInstanceAs (Decidable (text ≠ _ ∧ text ≠ _ ∧ (_ → text = [])))

section Values

variable {text : List UInt8} {value : Value}

theorem PlainText.trim_eq (plain : PlainText text) : trim text = text := by
  have left : text.dropWhile isBlank = text := by
    cases text with
    | nil => rfl
    | cons c rest =>
        apply List.dropWhile_cons_of_neg
        rw [plain.first c rfl]
        exact Bool.false_ne_true
  rw [trim, left, List.rdropWhile_eq_self_iff]
  intro nonempty blank
  rw [plain.last _ (List.getLast?_eq_some_getLast nonempty)] at blank
  cases blank

theorem isLineEnd_of_isDigit {c : UInt8} (digit : isDigit c = true) :
    isLineEnd c = false ∧ isBlank c = false := by
  have bounds : 0x30 ≤ c ∧ c ≤ 0x39 := by simpa [isDigit] using digit
  have apart : ∀ other < (0x30 : UInt8), c ≠ other := by
    intro other below same
    exact absurd (same ▸ bounds.1) (UInt8.not_le.mpr below)
  constructor
  · simp [isLineEnd, apart 0 (by decide), apart '\n'.toUInt8 (by decide),
      apart '\r'.toUInt8 (by decide)]
  · simp [isBlank, apart ' '.toUInt8 (by decide), apart '\t'.toUInt8 (by decide),
      apart '\n'.toUInt8 (by decide), apart '\r'.toUInt8 (by decide)]

theorem plainText_of_free
    (free : ∀ c ∈ text, isLineEnd c = false ∧ isBlank c = false) : PlainText text := by
  constructor
  · intro c member
    exact (free c member).1
  · intro c first
    exact (free c (List.mem_of_mem_head? first)).2
  · intro c last
    exact (free c (List.mem_of_mem_getLast? last)).2

theorem plainText_display (representable : Representable value) :
    PlainText (display value) := by
  cases value with
  | bool truth =>
      have free : (display (.bool truth)).all
          (fun c => !isLineEnd c && !isBlank c) = true := by cases truth <;> rfl
      apply plainText_of_free
      simpa using free
  | string text => exact representable.2
  | int number =>
  apply plainText_of_free
  by_cases nonneg : 0 ≤ number
  · intro c member
    exact isLineEnd_of_isDigit (isDigit_of_mem_kitoa nonneg c member)
  · intro c member
    rw [display, kitoa_of_neg (not_le.mp nonneg)] at member
    cases member with
    | head => decide
    | tail _ member => exact isLineEnd_of_isDigit (isDigit_of_mem_kutoaInternal c member)

/-- A number is neither of the words for truth values. -/
theorem ne_word {word : String} (letter : (ascii word).head?.any isDigit = false)
    (no_sign : (ascii word).head? ≠ some '-'.toUInt8)
    (digit : text.head?.any isDigit = true ∨ text.head? = some '-'.toUInt8) :
    text ≠ ascii word := by
  intro same
  rw [same, letter] at digit
  cases digit with
  | inl digit => cases digit
  | inr sign => exact no_sign sign

theorem display_int_ne_word (number : Int) :
    kitoa number 10 ≠ ascii "true" ∧ kitoa number 10 ≠ ascii "false" := by
  have start : (kitoa number 10).head?.any isDigit = true ∨
      (kitoa number 10).head? = some '-'.toUInt8 := by
    by_cases nonneg : 0 ≤ number
    · left
      have digits := isDigit_of_mem_kitoa nonneg
      cases shown : kitoa number 10 with
      | nil => exact absurd shown (kitoa_ne_nil number)
      | cons c rest =>
          rw [shown] at digits
          exact digits c List.mem_cons_self
    · right
      rw [kitoa_of_neg (not_le.mp nonneg)]
      rfl
  exact ⟨ne_word rfl (by decide) start, ne_word rfl (by decide) start⟩

theorem isInt_display (number : Int) : isInt (kitoa number 10) = true := by
  by_cases nonneg : 0 ≤ number
  · have digits := isDigit_of_mem_kitoa nonneg
    have unsigned : (kitoa number 10).head? ≠ some '-'.toUInt8 := by
      intro sign
      have := digits _ (List.mem_of_mem_head? sign)
      revert this
      decide
    rw [isInt, if_neg unsigned]
    exact List.all_eq_true.mpr digits
  · rw [kitoa_of_neg (not_le.mp nonneg), isInt]
    exact List.all_eq_true.mpr isDigit_of_mem_kutoaInternal

theorem parseValue_plain (plain : PlainText text) :
    parseValue text =
      if text = ascii "true" ∨ text = ascii "false" then .bool (text = ascii "true")
      else if isInt text ∧ text ≠ [] then .int (Int.bmod (katoi text 10) (2 ^ 32))
      else .string (text.take (valueMax - 1)) := by
  rw [parseValue, plain.trim_eq]

/-- What is read of a number: the number, or zero if it has a sign. -/
theorem parse_display_int {number : Int} (fits : -2 ^ 31 ≤ number ∧ number < 2 ^ 31) :
    parseValue (kitoa number 10) = .int (if 0 ≤ number then number else 0) := by
  have no_word := display_int_ne_word number
  have plain : PlainText (kitoa number 10) := @plainText_display (.int number) fits
  rw [parseValue_plain plain, if_neg (not_or.mpr no_word),
    if_pos ⟨isInt_display number, kitoa_ne_nil number⟩]
  apply congrArg Value.int
  split
  next nonneg =>
    rw [katoi_kitoa nonneg (by omega), Int.bmod_def]
    split
    · omega
    · omega
  next negative =>
    rw [kitoa_of_neg (not_le.mp negative), katoi_minus]
    rfl

/-- A value is read back from its text if the parser can tell it. -/
theorem parse_display_iff (representable : Representable value) :
    parseValue (display value) = value ↔ Survives value := by
  cases value with
  | bool truth => cases truth <;> exact iff_of_true rfl trivial
  | int number =>
      rw [display, parse_display_int representable, Value.int.injEq, Survives]
      constructor
      · intro same
        by_contra negative
        rw [if_neg negative] at same
        exact negative (Int.le_of_eq same)
      · intro nonneg
        exact if_pos nonneg
  | string text =>
  have whole : text.take (valueMax - 1) = text :=
    List.take_of_length_le (Nat.le_sub_one_of_lt representable.1)
  rw [display, parseValue_plain representable.2, whole]
  split
  next word =>
    apply iff_of_false Value.noConfusion
    rintro ⟨no_true, no_false, -⟩
    cases word with
    | inl is_true => exact no_true is_true
    | inr is_false => exact no_false is_false
  next no_word =>
    split
    next number =>
      apply iff_of_false Value.noConfusion
      rintro ⟨-, -, no_number⟩
      exact number.2 (no_number number.1)
    next no_number =>
      apply iff_of_true rfl
      constructor
      · exact fun is_true => no_word (.inl is_true)
      constructor
      · exact fun is_false => no_word (.inr is_false)
      · intro number
        by_contra nonempty
        exact no_number ⟨number, nonempty⟩

end Values

/-! ## Lines -/

section Lines

variable {fuel : Nat} {memory line rest : List UInt8} {entries : List Entry}

/-- The lines that the loop of `config_load` goes through. -/
def lineLoop : (fuel : Nat) → (memory : List UInt8) → List (List UInt8)
  | 0, _ => []
  | fuel + 1, memory =>
      if memory.headD 0 = 0 then []
      else
        (memory.takeWhile fun c => !isLineEnd c) ::
          lineLoop fuel (nextLine (memory.dropWhile fun c => !isLineEnd c))

/-- The lines of the memory. -/
def textLines (memory : List UInt8) : List (List UInt8) := lineLoop memory.length memory

theorem loadLoop_eq :
    loadLoop fuel memory entries = (lineLoop fuel memory).foldl loadLine entries := by
  induction fuel generalizing memory entries with
  | zero => rfl
  | succ fuel ih =>
      rw [loadLoop, lineLoop]
      split
      · rfl
      · exact ih

theorem length_nextLine_le (eol : List UInt8) : (nextLine eol).length ≤ eol.length - 1 := by
  have shorter : ∀ (pair : List UInt8) (text : List UInt8),
      (if text.take 2 = pair then text.drop 1 else text).length ≤ text.length := by
    intro pair text
    split
    · simp
    · rfl
  rw [nextLine, List.length_drop]
  exact Nat.sub_le_sub_right ((shorter _ _).trans (shorter _ _)) 1

/-- More rounds than there are characters do not change the lines. -/
theorem lineLoop_eq_textLines (enough : memory.length ≤ fuel) :
    lineLoop fuel memory = textLines memory := by
  suffices same : ∀ (fuel other : Nat) (memory : List UInt8), memory.length ≤ fuel →
      memory.length ≤ other → lineLoop fuel memory = lineLoop other memory from
    same _ _ _ enough le_rfl
  intro fuel
  induction fuel with
  | zero =>
      intro other memory empty _
      rw [List.length_eq_zero_iff.mp (Nat.le_zero.mp empty)]
      cases other <;> rfl
  | succ fuel ih =>
  intro other memory enough enough'
  cases memory with
  | nil => cases other <;> rfl
  | cons c rest =>
  obtain ⟨other, rfl⟩ := Nat.exists_eq_add_one_of_ne_zero
    (Nat.ne_zero_of_lt enough')
  have fewer := (length_nextLine_le ((c :: rest).dropWhile fun c => !isLineEnd c)).trans
    (Nat.sub_le_sub_right (List.length_dropWhile_le _ _) 1)
  rw [lineLoop, lineLoop, ih other _ (fewer.trans (Nat.le_of_succ_le_succ enough))
    (fewer.trans (Nat.le_of_succ_le_succ enough'))]

theorem textLines_line (nonempty : line ≠ []) (one_line : ∀ c ∈ line, isLineEnd c = false) :
    textLines (line ++ '\n'.toUInt8 :: rest) =
      line :: textLines (nextLine ('\n'.toUInt8 :: rest)) := by
  obtain ⟨c, line, rfl⟩ := List.exists_cons_of_ne_nil nonempty
  have inner : ∀ c' ∈ c :: line, (!isLineEnd c') = true := by
    intro c' member
    rw [one_line c' member]
    rfl
  have starts : ¬(c :: line ++ '\n'.toUInt8 :: rest).headD 0 = 0 := by
    intro zero
    have zero : c = 0 := zero
    have := one_line c List.mem_cons_self
    rw [zero] at this
    revert this
    decide
  have fewer := length_nextLine_le ('\n'.toUInt8 :: rest)
  rw [textLines, List.length_append, List.length_cons, Nat.add_right_comm, lineLoop,
    if_neg starts, List.takeWhile_append_of_pos inner, List.dropWhile_append_of_pos inner]
  have ends : ∀ rest : List UInt8,
      ('\n'.toUInt8 :: rest).takeWhile (fun c => !isLineEnd c) = [] ∧
        ('\n'.toUInt8 :: rest).dropWhile (fun c => !isLineEnd c) = '\n'.toUInt8 :: rest :=
    fun _ => ⟨rfl, rfl⟩
  rw [(ends rest).1, (ends rest).2, List.append_nil, lineLoop_eq_textLines (by omega)]

theorem nextLine_newline (no_return : rest.head? ≠ some '\r'.toUInt8) :
    nextLine ('\n'.toUInt8 :: rest) = rest := by
  have first : ¬('\n'.toUInt8 :: rest).take 2 = ascii "\r\n" := by
    intro same
    have := congrArg List.head? same
    revert this
    simp only [List.take_succ_cons, List.head?_cons]
    decide
  have second : ¬('\n'.toUInt8 :: rest).take 2 = ascii "\n\r" := by
    intro same
    cases rest with
    | nil => cases same
    | cons c rest =>
        have : c = '\r'.toUInt8 := by
          have := congrArg (fun text => text.drop 1) same
          exact List.head_eq_of_cons_eq this
        exact no_return (congrArg some this)
  rw [nextLine, if_neg first, if_neg second]
  rfl

theorem textLines_append {lines : List (List UInt8)} (nonempty : lines ≠ [])
    (proper : ∀ line ∈ lines, line ≠ [] ∧ ∀ c ∈ line, isLineEnd c = false) :
    textLines (lines.flatMap (· ++ ['\n'.toUInt8]) ++ rest) =
      lines ++ textLines (nextLine ('\n'.toUInt8 :: rest)) := by
  induction lines with
  | nil => exact absurd rfl nonempty
  | cons line more ih =>
  have here := proper line List.mem_cons_self
  have there := fun line member => proper line (List.mem_cons_of_mem _ member)
  rw [List.flatMap_cons, List.append_assoc, List.append_assoc, List.singleton_append,
    textLines_line here.1 here.2, List.cons_append]
  apply congrArg (line :: ·)
  cases more with
  | nil => rfl
  | cons next more =>
  rw [← ih (List.cons_ne_nil _ _) there]
  apply congrArg textLines
  apply nextLine_newline
  obtain ⟨c, tail, same⟩ := List.exists_cons_of_ne_nil (there next List.mem_cons_self).1
  have plain := (there next List.mem_cons_self).2 c (same ▸ List.mem_cons_self)
  rw [List.flatMap_cons, same]
  intro is_return
  have is_return : c = '\r'.toUInt8 := Option.some.inj is_return
  rw [is_return] at plain
  revert plain
  decide

end Lines

section Entering

variable {entries : List Entry} {lines : List (List UInt8)} {key line : List UInt8}

/-- The value that a line assigns to a key. -/
def assignedTo (key line : List UInt8) : Option Value :=
  (assignment line).bind fun pair => if key = pair.1 then some pair.2 else none

theorem lookup_loadLine
    (fits : (lookup entries key).isSome ∨
      (entries.length < maxEntries ∧ ∀ pair ∈ assignment line, pair.1.length < keyMax)) :
    lookup (loadLine entries line) key =
      (assignedTo key line).or (lookup entries key) := by
  rw [loadLine, assignedTo]
  cases found : assignment line with
  | none => rfl
  | some pair =>
  dsimp only [Option.bind_some]
  rw [lookup_assign]
  · split
    · rfl
    · rfl
  · cases fits with
    | inl present => exact .inl present
    | inr room => exact .inr ⟨room.1, room.2 pair found⟩

theorem length_loadLine_le : (loadLine entries line).length ≤ entries.length + 1 := by
  rw [loadLine]
  split
  · exact Nat.le_succ _
  · exact length_assign_le

/-- After all lines are entered a key has the value that the last line for it assigns, or the
value from before. -/
theorem lookup_foldl_loadLine
    (fits : (lookup entries key).isSome ∨ (entries.length + lines.length ≤ maxEntries ∧
      ∀ line ∈ lines, ∀ pair ∈ assignment line, pair.1.length < keyMax)) :
    lookup (lines.foldl loadLine entries) key =
      (lines.filterMap (assignedTo key)).getLast?.or (lookup entries key) := by
  induction lines generalizing entries with
  | nil => rfl
  | cons line lines ih =>
  have step : lookup (loadLine entries line) key =
      (assignedTo key line).or (lookup entries key) := by
    apply lookup_loadLine
    cases fits with
    | inl present => exact .inl present
    | inr room =>
    right
    constructor
    · have := room.1
      rw [List.length_cons] at this
      omega
    · exact room.2 line List.mem_cons_self
  rw [List.foldl_cons, ih]
  · rw [step, List.filterMap_cons]
    split
    next none => rw [none, Option.none_or]
    next value some =>
      rw [some, List.getLast?_cons, Option.some_or, Option.some_or]
      cases (lines.filterMap (assignedTo key)).getLast? <;> rfl
  · cases fits with
    | inl present =>
        left
        rw [step, Option.isSome_or, present, Bool.or_true]
    | inr room =>
    right
    constructor
    · have := room.1
      have := @length_loadLine_le entries line
      rw [List.length_cons] at *
      omega
    · intro other member
      exact room.2 other (List.mem_cons_of_mem _ member)

end Entering

/-! ## The lines of a table -/

section Table

variable {entry : Entry} {entries : List Entry}

theorem PlainKey.plainText {key : List UInt8} (plain : PlainKey key) : PlainText key := by
  apply plainText_of_free
  intro c member
  obtain ⟨no_blank, no_null, -⟩ := plain.plain c member
  constructor
  · have := no_blank
    simp only [isBlank, Bool.or_eq_false_iff] at this
    simp [isLineEnd, no_null, this]
  · exact no_blank

theorem plainText_lineText (plain : PlainKey entry.key)
    (representable : Representable entry.value) : PlainText (lineText entry) := by
  have key_text := plain.plainText
  have value_text := plainText_display representable
  constructor
  · intro c member
    cases List.mem_append.mp member with
    | inl of_key => exact key_text.oneLine c of_key
    | inr behind =>
        cases behind with
        | head => decide
        | tail _ of_value => exact value_text.oneLine c of_value
  · rw [lineText, List.head?_append_of_ne_nil _ plain.nonempty]
    exact key_text.first
  intro c last
  rw [lineText, List.getLast?_append_of_ne_nil _ (List.cons_ne_nil _ _),
    List.getLast?_cons] at last
  cases shown : (display entry.value).getLast? with
  | none =>
      rw [shown] at last
      cases last
      decide
  | some c' =>
      rw [shown] at last
      cases last
      exact value_text.last _ shown

theorem assignment_lineText (plain : PlainKey entry.key)
    (representable : Representable entry.value) :
    assignment (lineText entry) = some (entry.key, parseValue (display entry.value)) := by
  obtain ⟨first, rest, same⟩ := List.exists_cons_of_ne_nil plain.nonempty
  have no_comment : ¬(lineText entry = [] ∨ (lineText entry).head? = some '#'.toUInt8) := by
    rw [lineText, List.head?_append_of_ne_nil _ plain.nonempty]
    apply not_or.mpr
    constructor
    · rw [same]
      exact List.cons_ne_nil _ _
    · exact plain.noComment
  have inner : ∀ c ∈ entry.key, decide (c ≠ '='.toUInt8) = true := by
    intro c member
    exact decide_eq_true (plain.plain c member).2.2
  rw [assignment, (plainText_lineText plain representable).trim_eq, if_neg no_comment, lineText,
    List.dropWhile_append_of_pos inner, List.takeWhile_append_of_pos inner]
  have ends : ∀ rest : List UInt8,
      ('='.toUInt8 :: rest).takeWhile (fun c => decide (c ≠ '='.toUInt8)) = [] ∧
        ('='.toUInt8 :: rest).dropWhile (fun c => decide (c ≠ '='.toUInt8)) =
          '='.toUInt8 :: rest :=
    fun _ => ⟨rfl, rfl⟩
  rw [(ends _).1, (ends _).2, List.append_nil, plain.plainText.trim_eq]
  dsimp only
  rw [if_neg plain.nonempty, (plainText_display representable).trim_eq]

theorem appendText_of_le {buf text : List UInt8} (fits : buf.length + text.length ≤ 4000) :
    appendText buf text = buf ++ text := by
  rw [appendText, List.take_of_length_le (by omega)]

/-- A table whose text is short enough is written as a whole. -/
theorem saveLoop_eq {buf : List UInt8}
    (short : buf.length + (serialised entries).length < 4000) :
    saveLoop entries buf = buf ++ serialised entries := by
  induction entries generalizing buf with
  | nil => simp [saveLoop, serialised]
  | cons entry rest ih =>
  have cut : serialised (entry :: rest) =
      entry.key ++ '='.toUInt8 :: (display entry.value ++
        '\n'.toUInt8 :: serialised rest) := by
    simp [serialised, lineText]
  rw [cut] at short ⊢
  simp only [List.length_append, List.length_cons] at short
  have key_written : appendText buf entry.key = buf ++ entry.key :=
    appendText_of_le (by omega)
  have value_written :
      appendText (buf ++ entry.key ++ ['='.toUInt8]) (display entry.value) =
        buf ++ entry.key ++ ['='.toUInt8] ++ display entry.value := by
    apply appendText_of_le
    simp only [List.length_append, List.length_singleton]
    omega
  rw [saveLoop]
  dsimp only
  rw [key_written, value_written, if_neg, if_neg, ih]
  · simp
  · simp only [List.length_append, List.length_singleton]
    omega
  · simp only [List.length_append, List.length_singleton]
    omega
  · simp only [List.length_append]
    omega

/-- The lines of a table assign its values, as they are read back. -/
theorem getLast?_assigned (storable : Storable entries) (member : entry ∈ entries) :
    ((entries.map lineText).filterMap (assignedTo entry.key)).getLast? =
      some (parseValue (display entry.value)) := by
  have reads : ∀ other ∈ entries, assignedTo entry.key (lineText other) =
      if entry.key = other.key then some (parseValue (display other.value)) else none := by
    intro other inside
    rw [assignedTo, assignment_lineText (storable.keys other inside)
      (storable.values other inside), Option.bind_some]
  have only : ∀ value ∈ (entries.map lineText).filterMap (assignedTo entry.key),
      value = parseValue (display entry.value) := by
    intro value inside
    obtain ⟨line, of_table, assigns⟩ := List.mem_filterMap.mp inside
    obtain ⟨other, inside, rfl⟩ := List.mem_map.mp of_table
    rw [reads other inside] at assigns
    split at assigns
    next same =>
      have : entry = other :=
        List.inj_on_of_nodup_map storable.distinct member inside same
      rw [this]
      exact (Option.some.inj assigns).symm
    next => cases assigns
  have some_line : parseValue (display entry.value) ∈
      (entries.map lineText).filterMap (assignedTo entry.key) := by
    rw [List.mem_filterMap]
    refine ⟨lineText entry, List.mem_map_of_mem member, ?_⟩
    rw [reads entry member, if_pos rfl]
  have nonempty := List.ne_nil_of_mem some_line
  rw [List.getLast?_eq_some_getLast nonempty, only _ (List.getLast_mem nonempty)]

end Table

/-- What the loop of `config_load` goes on with behind the text of a table: what the file has
there from before, and the stack. -/
def leftover (entries : List Entry) (old stack : List UInt8) : List UInt8 :=
  let length := (serialised entries).length
  nextLine ('\n'.toUInt8 :: ((old.drop length).take (bufferSize - 1 - length) ++ 0 :: stack))

/-- The value that the last line of the memory for a key assigns to it. -/
def lastAssigned (memory key : List UInt8) : Option Value :=
  ((textLines memory).filterMap (assignedTo key)).getLast?

theorem length_defaults : (defaults configInit).length = 5 := rfl

/-- The value of a saved key after loading: the last one that the lines behind the table
assign to it, or the one that is read back from its own line. -/
theorem lookup_configLoad_configSave {entries : List Entry} (storable : Storable entries)
    (old stack : List UInt8) {entry : Entry} (member : entry ∈ entries) :
    lookup (configLoad configInit (configSave entries (some old)) stack) entry.key =
      (lastAssigned (leftover entries old stack) entry.key).or
        (some (parseValue (display entry.value))) := by
  have written : saveLoop entries [] = serialised entries := by
    rw [saveLoop_eq (by simpa using storable.short), List.nil_append]
  have nonempty : entries ≠ [] := List.ne_nil_of_mem member
  have lines_of : serialised entries =
      (entries.map lineText).flatMap (· ++ ['\n'.toUInt8]) := by
    rw [serialised, List.flatMap_map]
  have proper : ∀ line ∈ entries.map lineText,
      line ≠ [] ∧ ∀ c ∈ line, isLineEnd c = false := by
    intro line inside
    obtain ⟨other, of_table, rfl⟩ := List.mem_map.mp inside
    constructor
    · exact List.append_ne_nil_of_right_ne_nil _ (List.cons_ne_nil _ _)
    · exact (plainText_lineText (storable.keys other of_table)
        (storable.values other of_table)).oneLine
  have short : (serialised entries).length ≤ bufferSize - 1 :=
    storable.short.le.trans (by decide)
  have loaded : configLoad configInit (configSave entries (some old)) stack =
      (entries.map lineText ++ textLines (leftover entries old stack)).foldl loadLine
        (defaults configInit) := by
    have buffer : (serialised entries ++ old.drop (serialised entries).length).take
          (bufferSize - 1) =
        serialised entries ++ (old.drop (serialised entries).length).take
          (bufferSize - 1 - (serialised entries).length) := by
      rw [List.take_append, List.take_of_length_le short]
    have text : serialised entries ≠ [] := by
      rw [serialised]
      intro empty
      have := List.flatMap_eq_nil_iff.mp empty entry member
      exact absurd this (List.append_ne_nil_of_right_ne_nil _ (List.cons_ne_nil _ _))
    dsimp only [configSave, Option.map_some]
    rw [configLoad, written, buffer, if_neg (by simp [text]), loadLoop_eq]
    apply congrArg (List.foldl loadLine (defaults configInit))
    rw [← textLines, List.append_assoc, lines_of,
      textLines_append (by simpa using nonempty) proper, leftover, lines_of]
  have own := getLast?_assigned storable member
  have room : (defaults configInit).length + (entries.map lineText).length ≤ maxEntries ∧
      ∀ line ∈ entries.map lineText, ∀ pair ∈ assignment line, pair.1.length < keyMax := by
    constructor
    · rw [length_defaults, List.length_map]
      exact Nat.add_le_add_left storable.count 5
    · intro line inside pair assigns
      obtain ⟨other, of_table, rfl⟩ := List.mem_map.mp inside
      rw [assignment_lineText (storable.keys other of_table) (storable.values other of_table)]
        at assigns
      cases assigns
      exact (storable.keys other of_table).short
  have after_table : lookup ((entries.map lineText).foldl loadLine (defaults configInit))
      entry.key = some (parseValue (display entry.value)) := by
    rw [lookup_foldl_loadLine (.inr room), own, Option.some_or]
  rw [loaded, List.foldl_append, lookup_foldl_loadLine (.inl (by rw [after_table]; rfl)),
    after_table]
  rfl

/-- Every saved value is there after saving, initialising and loading. -/
def RoundTrips (entries : List Entry) (old stack : List UInt8) : Prop :=
  ∀ entry ∈ entries,
    lookup (configLoad configInit (configSave entries (some old)) stack) entry.key =
      some entry.value

/-- The last line behind the table that assigns the key of an entry has its value.  If there
is no such line the value survives. -/
def ReadsBack (entries : List Entry) (old stack : List UInt8) : Prop :=
  ∀ entry ∈ entries,
    (∀ value ∈ lastAssigned (leftover entries old stack) entry.key, value = entry.value) ∧
      (lastAssigned (leftover entries old stack) entry.key = none → Survives entry.value)

instance (entries : List Entry) (old stack : List UInt8) :
    Decidable (ReadsBack entries old stack) :=
  inferInstanceAs (Decidable (∀ entry ∈ entries, _ ∧ _))

/-- A table with one number. -/
def volume (value : Int) : List Entry := [⟨ascii "volume", .int value⟩]

theorem storable_volume {value : Int} (fits : -2 ^ 31 ≤ value ∧ value < 2 ^ 31)
    (short : (serialised (volume value)).length < 4000) : Storable (volume value) := by
  have plain : PlainKey (ascii "volume") := by
    have free : (ascii "volume").all
        (fun c => !isBlank c && c != 0 && c != '='.toUInt8) = true := rfl
    constructor
    · decide
    · decide
    · simpa [and_assoc] using free
    · decide
  constructor
  · exact (by decide : 1 ≤ 59)
  · exact List.nodup_singleton _
  · intro entry member
    rw [List.mem_singleton.mp member]
    exact plain
  · intro entry member
    rw [List.mem_singleton.mp member]
    exact fits
  · exact short

end Charis.Config
