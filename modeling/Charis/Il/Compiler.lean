import Charis.Il.Runtime

/-!
# The compiler of source texts

The compiler goes through a text once and emits an instruction for every number and operator.
It comes to an end unless there is an equals sign without a second one, which it neither
translates nor passes.

A text is without the character that ends it.  The compiler keeps a record of the positions that
it reads, and of these the one behind the text is that of the last character.
-/

namespace Charis.Il

open Charis.Lib Charis.Net Charis.Text

/-- The character at a position. -/
def charAt (text : List UInt8) (i : Nat) : UInt8 := text.getD i 0

/-- The position in the text, what has been emitted, and which positions have been read. -/
structure Scanner where
  i : Nat := 0
  out : List Instruction := []
  reads : List Nat := []

namespace Scanner

/-- A character ahead of the position is read. -/
def peek (text : List UInt8) (ahead : Nat) (s : Scanner) : UInt8 × Scanner :=
  (charAt text (s.i + ahead), { s with reads := s.reads ++ [s.i + ahead] })

/-- The position is moved. -/
def advance (count : Nat) (s : Scanner) : Scanner := { s with i := s.i + count }

/-- `out[ip++] = …`. -/
def emit (instr : Instruction) (s : Scanner) : Scanner := { s with out := s.out ++ [instr] }

/-- Characters from the position on are read. -/
def readRange (first count : Nat) (s : Scanner) : Scanner :=
  { s with reads := s.reads ++ List.range' first count }

end Scanner

/-- The loop over the digits of a number: how many there are. -/
def digitCount : List UInt8 → Nat
  | [] => 0
  | c :: rest => if isDigit c then digitCount rest + 1 else 0

/-- The loop over the digits of a jump target. -/
def targetLoop (target : Nat) : List UInt8 → Nat
  | [] => target
  | c :: rest =>
      if isDigit c then targetLoop ((target * 10 + (c - '0'.toUInt8).toNat) % 2 ^ 64) rest
      else target

/-- The branch for a number.  Its digits are read once to find its end and once by `katoi`. -/
def scanNumber (text : List UInt8) (s : Scanner) : Scanner :=
  let start := s.i
  let count := digitCount (text.drop start)
  ((((s.readRange start (count + 1)).advance count).readRange start (count + 1)).emit
    ⟨ilLoadi, UInt64.ofNat (katoi (text.drop start) 10)⟩)

/-- The branch for a jump. -/
def scanJump (text : List UInt8) (s : Scanner) : Scanner :=
  match (s.advance 1).peek text 0 with
  | (c, s) =>
      if c = 'z'.toUInt8 ∨ c = 'Z'.toUInt8 then (s.emit ⟨ilJz, 0⟩).advance 1
      else if c = 'm'.toUInt8 ∨ c = 'M'.toUInt8 then
        -- the digits are looked for where the letter is
        let count := digitCount (text.drop s.i)
        let target := targetLoop 0 (text.drop s.i)
        ((s.readRange s.i (count + 1)).advance count).emit ⟨ilJmp, UInt64.ofNat target⟩
      else s

/-- The body of the loop of `il_compile_source`. -/
def scanStep (text : List UInt8) (c : UInt8) (s : Scanner) : Scanner :=
  if c = ' '.toUInt8 ∨ c = '\n'.toUInt8 ∨ c = '\t'.toUInt8 then s.advance 1
  else if isDigit c then scanNumber text s
  else if c = '+'.toUInt8 then (s.emit ⟨ilAdd, 0⟩).advance 1
  else if c = '-'.toUInt8 then (s.emit ⟨ilSub, 0⟩).advance 1
  else if c = '*'.toUInt8 then (s.emit ⟨ilMul, 0⟩).advance 1
  else if c = '='.toUInt8 then
    match s.peek text 1 with
    | (next, s) => if next = '='.toUInt8 then (s.emit ⟨ilEq, 0⟩).advance 2 else s
  else if c = 'j'.toUInt8 ∨ c = 'J'.toUInt8 then scanJump text s
  else if c = 'p'.toUInt8 ∨ c = 'P'.toUInt8 then (s.emit ⟨ilPrint, 0⟩).advance 1
  else if c = 'h'.toUInt8 ∨ c = 'H'.toUInt8 then (s.emit ⟨ilHalt, 0⟩).advance 1
  else s.advance 1

/-- The loop of `il_compile_source`, for a number of rounds: whether it has ended. -/
def compileLoop (text : List UInt8) : (rounds : Nat) → Scanner → Bool × Scanner
  | 0, s => (false, s)
  | rounds + 1, s =>
      match s.peek text 0 with
      | (c, s) =>
          if c ≠ 0 ∧ s.out.length < maxInstructions - 1 then
            compileLoop text rounds (scanStep text c s)
          else (true, s)

/-- `il_compile_source`, for a number of rounds. -/
def ilCompileSource (text : List UInt8) (rounds : Nat) : Bool × Scanner :=
  compileLoop text rounds {}

/-- The compiler comes to an end, reads nothing behind the end of the text and emits as many
instructions as fit with room for one more. -/
structure Compiles (text : List UInt8) : Prop where
  ends : ∃ rounds, (ilCompileSource text rounds).1 = true
  reads : ∀ rounds, ∀ index ∈ (ilCompileSource text rounds).2.reads, index ≤ text.length
  emits : ∀ rounds, (ilCompileSource text rounds).2.out.length ≤ maxInstructions - 1

/-- How many equals signs there are right before a position. -/
def equalsBefore (text : List UInt8) : Nat → Nat
  | 0 => 0
  | k + 1 => if charAt text k = '='.toUInt8 then equalsBefore text k + 1 else 0

/-- There is a digit right before a position. -/
def afterDigit (text : List UInt8) : Nat → Bool
  | 0 => false
  | k + 1 => isDigit (charAt text k)

/-- A character that is an instruction of its own. -/
def isOperator (c : UInt8) : Bool :=
  c = '+'.toUInt8 || c = '-'.toUInt8 || c = '*'.toUInt8 || c = 'p'.toUInt8 || c = 'P'.toUInt8 ||
    c = 'h'.toUInt8 || c = 'H'.toUInt8

/-- The letter of a jump. -/
def isJump (c : UInt8) : Bool := c = 'j'.toUInt8 || c = 'J'.toUInt8

/-- The letter behind that of a jump. -/
def isJumpKind (c : UInt8) : Bool :=
  c = 'z'.toUInt8 || c = 'Z'.toUInt8 || c = 'm'.toUInt8 || c = 'M'.toUInt8

/-- An instruction begins at a position: an operator, the first digit of a number, the first of
the two letters of a jump, or the first of two equals signs. -/
def beginsInstruction (text : List UInt8) (k : Nat) : Bool :=
  isOperator (charAt text k) || (isDigit (charAt text k) && !afterDigit text k) ||
    (isJump (charAt text k) && isJumpKind (charAt text (k + 1))) ||
      (charAt text k = '='.toUInt8 && equalsBefore text k % 2 = 0 &&
        charAt text (k + 1) = '='.toUInt8)

/-- How many instructions begin before a position. -/
def instructionsBefore (text : List UInt8) (k : Nat) : Nat :=
  (List.range k).countP (beginsInstruction text)

/-- An equals sign that is left over when those of a run are taken in pairs. -/
def LoneEqual (text : List UInt8) (k : Nat) : Prop :=
  charAt text k = '='.toUInt8 ∧ equalsBefore text k % 2 = 0 ∧ charAt text (k + 1) ≠ '='.toUInt8

instance (text : List UInt8) (k : Nat) : Decidable (LoneEqual text k) :=
  inferInstanceAs (Decidable (_ ∧ _))

/-- No equals sign is left over before as many instructions as fit. -/
def Paired (text : List UInt8) : Prop :=
  ∀ k, LoneEqual text k → maxInstructions - 1 ≤ instructionsBefore text k

section Text

variable {text : List UInt8} {k i : Nat}

theorem instructionsBefore_succ (text : List UInt8) (k : Nat) :
    instructionsBefore text (k + 1) =
      instructionsBefore text k + if beginsInstruction text k then 1 else 0 := by
  rw [instructionsBefore, List.range_succ, List.countP_append, instructionsBefore,
    List.countP_singleton]

theorem instructionsBefore_mono (before : i ≤ k) :
    instructionsBefore text i ≤ instructionsBefore text k := by
  obtain ⟨more, rfl⟩ := Nat.exists_eq_add_of_le before
  induction more with
  | zero => exact Nat.le_refl _
  | succ more ih =>
      rw [← Nat.add_assoc, instructionsBefore_succ]
      exact (ih (Nat.le_add_right _ _)).trans (Nat.le_add_right _ _)

theorem equalsBefore_succ_of_ne (other : charAt text k ≠ '='.toUInt8) :
    equalsBefore text (k + 1) = 0 :=
  if_neg other

theorem equalsBefore_succ_of_eq (same : charAt text k = '='.toUInt8) :
    equalsBefore text (k + 1) = equalsBefore text k + 1 :=
  if_pos same

theorem charAt_of_length_le (behind : text.length ≤ i) : charAt text i = 0 :=
  List.getD_eq_default _ _ behind

theorem lt_length_of_charAt (filled : charAt text i ≠ 0) : i < text.length := by
  apply Nat.lt_of_not_le
  intro behind
  exact filled (charAt_of_length_le behind)

theorem charAt_ne_zero (proper : (0 : UInt8) ∉ text) (inside : i < text.length) :
    charAt text i ≠ 0 := by
  rw [charAt, List.getD_eq_getElem _ _ inside]
  intro zero
  exact proper (zero ▸ List.getElem_mem inside)

theorem charAt_drop (text : List UInt8) (i k : Nat) : charAt (text.drop i) k = charAt text (i + k) := by
  rw [charAt, charAt, List.getD_eq_getElem?_getD, List.getD_eq_getElem?_getD, List.getElem?_drop]

theorem digitCount_le (text : List UInt8) : digitCount text ≤ text.length := by
  induction text with
  | nil => exact Nat.le_refl _
  | cons c rest ih =>
      rw [digitCount]
      split
      · exact Nat.succ_le_succ ih
      · exact Nat.zero_le _

theorem digitCount_spec (text : List UInt8) :
    (∀ k < digitCount text, isDigit (charAt text k) = true) ∧
      isDigit (charAt text (digitCount text)) = false := by
  induction text with
  | nil => exact ⟨nofun, rfl⟩
  | cons c rest ih =>
  rw [digitCount]
  split
  next digit =>
    refine ⟨?_, ih.2⟩
    intro k below
    cases k with
    | zero => exact digit
    | succ k => exact ih.1 k (Nat.lt_of_succ_lt_succ below)
  next other =>
    refine ⟨nofun, ?_⟩
    rwa [Bool.not_eq_true] at other

end Text

theorem digit_class : ∀ c, isDigit c = true →
    isOperator c = false ∧ isJump c = false ∧ ¬c = '='.toUInt8 := by
  decide +kernel

theorem jump_class : ∀ c, isJump c = true →
    c ≠ 0 ∧ isDigit c = false ∧ c ≠ '='.toUInt8 ∧ isOperator c = false := by
  decide +kernel

theorem jumpKind_class : ∀ c, isJumpKind c = true →
    c ≠ 0 ∧ isDigit c = false ∧ c ≠ '='.toUInt8 ∧ isOperator c = false ∧ isJump c = false := by
  decide +kernel

theorem operator_class : ∀ c, isOperator c = true →
    isDigit c = false ∧ ¬c = '='.toUInt8 ∧ isJump c = false := by
  decide +kernel

/-! ## One round -/

/-- The scanner is where an instruction may begin, and it has emitted those before. -/
structure Aligned (text : List UInt8) (s : Scanner) : Prop where
  inside : s.i ≤ text.length
  emitted : s.out.length = instructionsBefore text s.i
  pairs : equalsBefore text s.i % 2 = 0
  numbers : afterDigit text s.i = true → isDigit (charAt text s.i) = false
  reads : ∀ index ∈ s.reads, index ≤ text.length

/-- A round leads to such a place again.  It passes something unless it is at an equals sign that
is left over, and it passes none of these. -/
structure Passes (text : List UInt8) (s s' : Scanner) : Prop where
  aligned : Aligned text s'
  emits : s'.out.length ≤ s.out.length + 1
  onward : LoneEqual text s.i ∨ s.i < s'.i
  stops : ∀ k, LoneEqual text k → s.i ≤ k → s'.i ≤ k

section Round

variable {text : List UInt8} {s s' : Scanner}

theorem Aligned.peek (aligned : Aligned text s) (ahead : Nat) (inside : s.i + ahead ≤ text.length) :
    Aligned text (s.peek text ahead).2 where
  inside := aligned.inside
  emitted := aligned.emitted
  pairs := aligned.pairs
  numbers := aligned.numbers
  reads := by
    intro index mem
    cases List.mem_append.mp mem with
    | inl earlier => exact aligned.reads index earlier
    | inr last =>
        rw [List.mem_singleton.mp last]
        exact inside

theorem afterDigit_succ (text : List UInt8) (k : Nat) :
    afterDigit text (k + 1) = isDigit (charAt text k) :=
  rfl

/-- A character is passed that is neither a digit nor an equals sign. -/
theorem Aligned.pass_one (aligned : Aligned text s) (filled : charAt text s.i ≠ 0)
    (digit : isDigit (charAt text s.i) = false) (other : charAt text s.i ≠ '='.toUInt8)
    (moved : s'.i = s.i + 1) (reads : ∀ index ∈ s'.reads, index ≤ text.length)
    (emitted : s'.out.length = s.out.length + if beginsInstruction text s.i then 1 else 0) :
    Passes text s s' where
  aligned := by
    constructor
    · rw [moved]
      exact lt_length_of_charAt filled
    · rw [emitted, moved, instructionsBefore_succ, aligned.emitted]
    · rw [moved, equalsBefore_succ_of_ne other]
    · rw [moved, afterDigit_succ, digit]
      exact nofun
    · exact reads
  emits := by
    rw [emitted]
    split
    · exact Nat.le_refl _
    · exact Nat.le_succ _
  onward := .inr (by omega)
  stops := by
    intro k lone before
    rw [moved]
    apply Nat.lt_of_le_of_ne before
    rintro rfl
    exact other lone.1

theorem Aligned.pass_number (aligned : Aligned text s) (digit : isDigit (charAt text s.i) = true) :
    Passes text s (scanNumber text s) := by
  have counted := digitCount_le (text.drop s.i)
  obtain ⟨digits, ended⟩ := digitCount_spec (text.drop s.i)
  simp only [charAt_drop] at digits ended
  rw [List.length_drop] at counted
  have inside := aligned.inside
  have some : 0 < digitCount (text.drop s.i) := by
    apply Nat.pos_of_ne_zero
    intro zero
    rw [zero, Nat.add_zero, digit] at ended
    cases ended
  generalize amount : digitCount (text.drop s.i) = count at counted digits ended some
  have moved : (scanNumber text s).i = s.i + count := congrArg (s.i + ·) amount
  -- an instruction begins with the first digit only
  have begins : ∀ passed ≤ count, 0 < passed →
      instructionsBefore text (s.i + passed) = s.out.length + 1 := by
    intro passed bound positive
    induction passed with
    | zero => cases positive
    | succ passed ih =>
    have here := digits passed (by omega)
    obtain ⟨operator, jump, equal⟩ := digit_class _ here
    rw [← Nat.add_assoc, instructionsBefore_succ]
    cases passed with
    | zero =>
        have fresh : afterDigit text s.i = false := by
          rw [← Bool.not_eq_true]
          intro after
          have none := aligned.numbers after
          rw [digit] at none
          cases none
        rw [Nat.add_zero] at here ⊢
        have first : beginsInstruction text s.i = true := by
          rw [beginsInstruction, here, fresh]
          simp
        rw [if_pos first, aligned.emitted]
    | succ passed =>
    have after : afterDigit text (s.i + (passed + 1)) = true :=
      digits passed (by omega)
    have later : beginsInstruction text (s.i + (passed + 1)) = false := by
      simp only [beginsInstruction, operator, jump, equal, after]
      simp
    rw [if_neg (by simp [later]), Nat.add_zero]
    exact ih (by omega) (Nat.succ_pos _)
  have last := digits (count - 1) (by omega)
  have place : s.i + count = s.i + (count - 1) + 1 := by omega
  constructor
  · constructor
    · omega
    · rw [moved, begins count (Nat.le_refl _) some]
      exact List.length_append
    · rw [moved, place, equalsBefore_succ_of_ne]
      intro equal
      rw [equal] at last
      revert last
      decide
    · rw [moved]
      intro _
      exact ended
    · have first : ∀ index ∈ List.range' s.i (count + 1), index ≤ text.length := by
        intro index mem
        have bounds := List.mem_range'_1.mp mem
        omega
      intro index mem
      simp only [scanNumber, Scanner.emit, Scanner.readRange, Scanner.advance, amount,
        List.mem_append] at mem
      rcases mem with (earlier | once) | again
      · exact aligned.reads index earlier
      · exact first index once
      · exact first index again
  · exact List.length_append.le
  · exact .inr (by omega)
  · intro k lone before
    rw [moved]
    apply Nat.le_of_not_lt
    intro beyond
    have inner := digits (k - s.i) (by omega)
    rw [Nat.add_sub_cancel' before, lone.1] at inner
    revert inner
    decide

/-- Two equals signs are passed. -/
theorem Aligned.pass_pair (aligned : Aligned text s) (first : charAt text s.i = '='.toUInt8)
    (second : charAt text (s.i + 1) = '='.toUInt8) (moved : s'.i = s.i + 2)
    (reads : ∀ index ∈ s'.reads, index ≤ text.length)
    (emitted : s'.out.length = s.out.length + 1) : Passes text s s' := by
  have even := aligned.pairs
  have odd : equalsBefore text (s.i + 1) = equalsBefore text s.i + 1 :=
    equalsBefore_succ_of_eq first
  have next : equalsBefore text (s.i + 1 + 1) = equalsBefore text (s.i + 1) + 1 :=
    equalsBefore_succ_of_eq second
  have plain : isOperator '='.toUInt8 = false ∧ isDigit '='.toUInt8 = false ∧
      isJump '='.toUInt8 = false := by decide
  obtain ⟨operator, digit, jump⟩ := plain
  have begins : beginsInstruction text s.i = true := by
    rw [beginsInstruction, first, second, operator, digit, jump, even]
    rfl
  have within : beginsInstruction text (s.i + 1) = false := by
    have : ¬equalsBefore text (s.i + 1) % 2 = 0 := by omega
    simp only [beginsInstruction, second, operator, digit, jump, this]
    simp
  constructor
  · constructor
    · have bound := @lt_length_of_charAt text (s.i + 1) (by rw [second]; decide)
      omega
    · rw [moved, emitted, instructionsBefore_succ, instructionsBefore_succ, begins, within,
        aligned.emitted]
      rfl
    · rw [moved, next, odd]
      omega
    · rw [moved]
      intro after
      rw [afterDigit_succ, second, digit] at after
      cases after
    · exact reads
  · exact emitted.le
  · exact .inr (by omega)
  intro k lone before
  rw [moved]
  have unpaired := lone.2
  apply Nat.le_of_not_lt
  intro beyond
  have cases : k = s.i ∨ k = s.i + 1 := by omega
  cases cases with
  | inl here =>
      rw [here] at unpaired
      exact unpaired.2 second
  | inr there =>
      rw [there] at unpaired
      omega

theorem Aligned.pass_jump (aligned : Aligned text s) (letter : isJump (charAt text s.i) = true) :
    Passes text s (scanJump text s) := by
  obtain ⟨filled, digit, equal, operator⟩ := jump_class _ letter
  have inside := lt_length_of_charAt filled
  have begins : beginsInstruction text s.i = isJumpKind (charAt text (s.i + 1)) := by
    simp only [beginsInstruction, operator, digit, letter, equal]
    simp
  have looked : ∀ index ∈ s.reads ++ [s.i + 1], index ≤ text.length := by
    intro index mem
    cases List.mem_append.mp mem with
    | inl earlier => exact aligned.reads index earlier
    | inr last =>
        rw [List.mem_singleton.mp last]
        exact inside
  rw [scanJump]
  have peeked : (s.advance 1).peek text 0 =
      (charAt text (s.i + 1), { s with i := s.i + 1, reads := s.reads ++ [s.i + 1] }) := rfl
  rw [peeked]
  dsimp only
  by_cases zero : charAt text (s.i + 1) = 'z'.toUInt8 ∨ charAt text (s.i + 1) = 'Z'.toUInt8
  · rw [if_pos zero]
    -- the second letter begins no instruction
    have kind : isJumpKind (charAt text (s.i + 1)) = true := by
      cases zero with
      | inl small => rw [small]; decide
      | inr large => rw [large]; decide
    obtain ⟨filled', digit', equal', operator', jump'⟩ := jumpKind_class _ kind
    have within : beginsInstruction text (s.i + 1) = false := by
      simp only [beginsInstruction, operator', digit', equal', jump']
      simp
    have inside' := lt_length_of_charAt filled'
    constructor
    · constructor
      · exact inside'
      · change (s.out ++ [_]).length = instructionsBefore text (s.i + 1 + 1)
        rw [instructionsBefore_succ, instructionsBefore_succ, begins, kind, within,
          List.length_append, aligned.emitted]
        rfl
      · change equalsBefore text (s.i + 1 + 1) % 2 = 0
        rw [equalsBefore_succ_of_ne equal']
      · change isDigit (charAt text (s.i + 1)) = true → _
        rw [digit']
        exact nofun
      · exact looked
    · exact List.length_append.le
    · exact .inr (Nat.lt_succ_of_lt (Nat.lt_succ_self _))
    · intro k lone before
      have first : k ≠ s.i := by
        rintro rfl
        exact equal lone.1
      have second : k ≠ s.i + 1 := by
        rintro rfl
        exact equal' lone.1
      change s.i + 1 + 1 ≤ k
      omega
  rw [if_neg zero]
  by_cases jump : charAt text (s.i + 1) = 'm'.toUInt8 ∨ charAt text (s.i + 1) = 'M'.toUInt8
  · rw [if_pos jump]
    have kind : isJumpKind (charAt text (s.i + 1)) = true := by
      cases jump with
      | inl small => rw [small]; decide
      | inr large => rw [large]; decide
    have none : digitCount (text.drop (s.i + 1)) = 0 := by
      have first := (jumpKind_class _ kind).2.1
      apply Nat.eq_zero_of_not_pos
      intro some
      have digit := (digitCount_spec (text.drop (s.i + 1))).1 0 some
      rw [charAt_drop, Nat.add_zero, first] at digit
      cases digit
    apply aligned.pass_one filled digit equal
    · change s.i + 1 + digitCount (text.drop (s.i + 1)) = s.i + 1
      rw [none]
    · intro index mem
      have mem : index ∈ s.reads ++ [s.i + 1] ++
          List.range' (s.i + 1) (digitCount (text.drop (s.i + 1)) + 1) := mem
      rw [none] at mem
      cases List.mem_append.mp mem with
      | inl earlier => exact looked index earlier
      | inr again =>
          apply looked
          exact List.mem_append_right _ again
    · change (s.out ++ [_]).length = _
      rw [begins, kind]
      exact List.length_append
  · rw [if_neg jump]
    have kind : isJumpKind (charAt text (s.i + 1)) = false := by
      rw [not_or] at zero jump
      simp [isJumpKind, zero, jump]
    apply @Aligned.pass_one text s _ aligned filled digit equal rfl looked
    rw [begins, kind]
    rfl

/-- What a round of the compiler does. -/
theorem Aligned.passes (aligned : Aligned text s) (filled : charAt text s.i ≠ 0) :
    Passes text s (scanStep text (charAt text s.i) s) := by
  have single : isDigit (charAt text s.i) = false → ¬charAt text s.i = '='.toUInt8 →
      isJump (charAt text s.i) = false →
      beginsInstruction text s.i = isOperator (charAt text s.i) := by
    intro digit equal jump
    simp only [beginsInstruction, digit, jump, equal]
    simp
  have blank : ∀ c, c = ' '.toUInt8 ∨ c = '\n'.toUInt8 ∨ c = '\t'.toUInt8 →
      isDigit c = false ∧ ¬c = '='.toUInt8 ∧ isJump c = false ∧ isOperator c = false := by
    intro c space
    rcases space with rfl | rfl | rfl
    · decide
    · decide
    · decide
  -- an operator is translated and passed
  have translated : ∀ instr, isOperator (charAt text s.i) = true →
      Passes text s ((s.emit instr).advance 1) := by
    intro instr found
    obtain ⟨digit, equal, jump⟩ := operator_class _ found
    apply @Aligned.pass_one text s ((s.emit instr).advance 1) aligned filled digit equal rfl
      aligned.reads
    rw [single digit equal jump, found]
    exact List.length_append
  -- everything else is skipped
  have skipped : isDigit (charAt text s.i) = false → ¬charAt text s.i = '='.toUInt8 →
      isJump (charAt text s.i) = false → isOperator (charAt text s.i) = false →
      Passes text s (s.advance 1) := by
    intro digit equal jump other
    apply @Aligned.pass_one text s (s.advance 1) aligned filled digit equal rfl aligned.reads
    rw [single digit equal jump, other]
    rfl
  rw [scanStep]
  by_cases space : charAt text s.i = ' '.toUInt8 ∨ charAt text s.i = '\n'.toUInt8 ∨
      charAt text s.i = '\t'.toUInt8
  · rw [if_pos space]
    obtain ⟨digit, equal, jump, other⟩ := blank _ space
    exact skipped digit equal jump other
  rw [if_neg space]
  by_cases digit : isDigit (charAt text s.i) = true
  · rw [if_pos digit]
    exact aligned.pass_number digit
  rw [if_neg digit]
  by_cases add : charAt text s.i = '+'.toUInt8
  · rw [if_pos add]
    exact translated _ (by rw [add]; decide)
  rw [if_neg add]
  by_cases sub : charAt text s.i = '-'.toUInt8
  · rw [if_pos sub]
    exact translated _ (by rw [sub]; decide)
  rw [if_neg sub]
  by_cases mul : charAt text s.i = '*'.toUInt8
  · rw [if_pos mul]
    exact translated _ (by rw [mul]; decide)
  rw [if_neg mul]
  by_cases equal : charAt text s.i = '='.toUInt8
  · rw [if_pos equal]
    have inside := lt_length_of_charAt filled
    have peeked := aligned.peek 1 inside
    have look : s.peek text 1 =
        (charAt text (s.i + 1), { s with reads := s.reads ++ [s.i + 1] }) := rfl
    rw [look] at peeked ⊢
    dsimp only at peeked ⊢
    by_cases pair : charAt text (s.i + 1) = '='.toUInt8
    · rw [if_pos pair]
      exact aligned.pass_pair equal pair rfl peeked.reads List.length_append
    · rw [if_neg pair]
      exact ⟨peeked, Nat.le_succ _, .inl ⟨equal, aligned.pairs, pair⟩, fun _ _ before => before⟩
  rw [if_neg equal]
  by_cases jump : charAt text s.i = 'j'.toUInt8 ∨ charAt text s.i = 'J'.toUInt8
  · rw [if_pos jump]
    apply aligned.pass_jump
    rw [isJump]
    simpa using jump
  rw [if_neg jump]
  by_cases print : charAt text s.i = 'p'.toUInt8 ∨ charAt text s.i = 'P'.toUInt8
  · rw [if_pos print]
    apply translated
    cases print with
    | inl small => rw [small]; decide
    | inr large => rw [large]; decide
  rw [if_neg print]
  by_cases halt : charAt text s.i = 'h'.toUInt8 ∨ charAt text s.i = 'H'.toUInt8
  · rw [if_pos halt]
    apply translated
    cases halt with
    | inl small => rw [small]; decide
    | inr large => rw [large]; decide
  rw [if_neg halt]
  rw [not_or] at jump print halt
  apply skipped
  · rwa [Bool.not_eq_true] at digit
  · exact equal
  · simp [isJump, jump]
  · simp [isOperator, add, sub, mul, print, halt]

end Round

/-! ## All rounds -/

section Rounds

variable {text : List UInt8} {s : Scanner}

theorem aligned_start (text : List UInt8) : Aligned text {} :=
  ⟨Nat.zero_le _, rfl, rfl, nofun, nofun⟩

/-- The first round is made if there is a character and room for an instruction. -/
theorem compileLoop_succ (text : List UInt8) (rounds : Nat) (s : Scanner) :
    compileLoop text (rounds + 1) s =
      if charAt text s.i ≠ 0 ∧ s.out.length < maxInstructions - 1 then
        compileLoop text rounds (scanStep text (charAt text s.i) (s.peek text 0).2)
      else (true, (s.peek text 0).2) :=
  rfl

theorem Aligned.passes_peeked (aligned : Aligned text s) (filled : charAt text s.i ≠ 0) :
    Passes text s (scanStep text (charAt text s.i) (s.peek text 0).2) := by
  have passes := (aligned.peek 0 aligned.inside).passes filled
  exact ⟨passes.aligned, passes.emits, passes.onward, passes.stops⟩

theorem Aligned.compileLoop (aligned : Aligned text s) (rounds : Nat) :
    Aligned text (compileLoop text rounds s).2 := by
  induction rounds generalizing s with
  | zero => exact aligned
  | succ rounds ih =>
      rw [compileLoop_succ]
      split
      next going => exact ih (aligned.passes_peeked going.1).aligned
      next => exact aligned.peek 0 aligned.inside

theorem Aligned.length_out_le (aligned : Aligned text s)
    (room : s.out.length ≤ maxInstructions - 1) (rounds : Nat) :
    (Il.compileLoop text rounds s).2.out.length ≤ maxInstructions - 1 := by
  induction rounds generalizing s with
  | zero => exact room
  | succ rounds ih =>
  rw [compileLoop_succ]
  split
  next going =>
    have passes := aligned.passes_peeked going.1
    exact ih passes.aligned (passes.emits.trans going.2)
  next => exact room

/-- When no equals sign is left over, every round passes something. -/
theorem Aligned.exists_end (aligned : Aligned text s) (paired : Paired text) :
    ∃ rounds, (Il.compileLoop text rounds s).1 = true := by
  generalize left : text.length - s.i = remaining
  induction remaining using Nat.strong_induction_on generalizing s with
  | h remaining ih =>
  by_cases going : charAt text s.i ≠ 0 ∧ s.out.length < maxInstructions - 1
  · have passes := aligned.passes_peeked going.1
    have moved : s.i < (scanStep text (charAt text s.i) (s.peek text 0).2).i := by
      cases passes.onward with
      | inl lone =>
          have full := paired _ lone
          rw [← aligned.emitted] at full
          exact absurd going.2 (Nat.not_lt.mpr full)
      | inr moved => exact moved
    have inside := lt_length_of_charAt going.1
    obtain ⟨rounds, ended⟩ := ih _ (by omega) passes.aligned rfl
    refine ⟨rounds + 1, ?_⟩
    rw [compileLoop_succ, if_pos going, ended]
  · refine ⟨1, ?_⟩
    rw [compileLoop_succ, if_neg going]

/-- An equals sign that is left over is never passed. -/
theorem Aligned.never_ends (aligned : Aligned text s) (proper : (0 : UInt8) ∉ text) {k : Nat}
    (lone : LoneEqual text k) (before : s.i ≤ k)
    (room : instructionsBefore text k < maxInstructions - 1) (rounds : Nat) :
    (Il.compileLoop text rounds s).1 = false := by
  induction rounds generalizing s with
  | zero => rfl
  | succ rounds ih =>
  have inside : k < text.length := by
    apply lt_length_of_charAt
    rw [lone.1]
    decide
  have filled := charAt_ne_zero proper (before.trans_lt inside)
  have emitted := (instructionsBefore_mono before).trans_lt room
  rw [← aligned.emitted] at emitted
  have passes := aligned.passes_peeked filled
  rw [compileLoop_succ, if_pos ⟨filled, emitted⟩]
  exact ih passes.aligned (passes.stops k lone before)

/-- The compiler does what it should on a text exactly if no equals sign is left over before as
many instructions as fit. -/
theorem compiles_iff (proper : (0 : UInt8) ∉ text) : Compiles text ↔ Paired text := by
  have aligned := aligned_start text
  constructor
  · intro compiles k lone
    apply Nat.le_of_not_lt
    intro room
    obtain ⟨rounds, ended⟩ := compiles.ends
    have going := aligned.never_ends proper lone (Nat.zero_le _) room rounds
    exact absurd (ended.symm.trans going) (by decide)
  · intro paired
    constructor
    · exact aligned.exists_end paired
    · intro rounds
      exact (aligned.compileLoop rounds).reads
    · intro rounds
      exact aligned.length_out_le (Nat.zero_le _) rounds

end Rounds

/-- `1 2 == p` is compiled. -/
theorem compiles_comparison : Compiles (ascii "1 2 == p") := by
  apply (compiles_iff (by decide)).mpr
  have none : ∀ k < 8, ¬LoneEqual (ascii "1 2 == p") k := by decide
  intro k lone
  have inside : k < 8 := by
    apply @lt_length_of_charAt (ascii "1 2 == p")
    rw [lone.1]
    decide
  exact absurd lone (none k inside)

/-- The compiler never comes to the end of `1 = p`. -/
theorem lone_equal_hangs :
    (∀ rounds, (ilCompileSource (ascii "1 = p") rounds).1 = false) ∧
      ¬Compiles (ascii "1 = p") := by
  have hangs : ∀ rounds, (ilCompileSource (ascii "1 = p") rounds).1 = false :=
    (aligned_start _).never_ends (k := 2) (by decide) (by decide) (by decide) (by decide)
  refine ⟨hangs, ?_⟩
  intro compiles
  obtain ⟨rounds, ended⟩ := compiles.ends
  exact absurd (ended.symm.trans (hangs rounds)) (by decide)

end Charis.Il
