import Charis.Lib.Access
import Charis.Config.Store

/-!
# Loading in place

The lines of a configuration file are read in the buffer itself.  A line is ended by storing a
zero, its words are cut in the same way, and only the character at its end is restored.  Every
line is entered as its text says.  The loop stops at an empty line, so it leaves the buffer if the
last line has no end of its own.
-/

namespace Charis.Config

open Charis.Lib Charis.Lib.Access Charis.Net Charis.Text

/-- The first loop of `trim`. -/
def skipBlanks : (fuel str : Nat) → Access Nat
  | 0, str => pure str
  | fuel + 1, str => do
      let c ← load str
      if isBlank c then skipBlanks fuel (str + 1) else pure str

/-- `kstrlen`, from a length on. -/
def kstrlen (s : Nat) : (fuel len : Nat) → Access Nat
  | 0, len => pure len
  | fuel + 1, len => do
      let c ← load (s + len)
      if c = 0 then pure len else kstrlen s fuel (len + 1)

/-- The second loop of `trim`, from the character on that is so many ahead. -/
def skipBack (str : Nat) : (ahead : Nat) → Access Nat
  | 0 => pure str
  | ahead + 1 => do
      let c ← load (str + (ahead + 1))
      if isBlank c then skipBack str ahead else pure (str + (ahead + 1))

/-- `trim` in the buffer. -/
def trimAt (str : Nat) : Access Nat := do
  let str ← skipBlanks bufferSize str
  let c ← load str
  if c = 0 then pure str
  else do
    let len ← kstrlen str bufferSize 0
    let last ← skipBack str (len - 1)
    store (last + 1) 0
    pure str

/-- A string is read up to its end, as `kstrcmp`, `kstrncpy` and `katoi` do at most. -/
def readString : (fuel s : Nat) → Access (List UInt8)
  | 0, _ => pure []
  | fuel + 1, s => do
      let c ← load s
      if c = 0 then pure []
      else do
        let text ← readString fuel (s + 1)
        pure (c :: text)

/-- `parse_value` in the buffer. -/
def parseValueAt (valueStr : Nat) : Access Value := do
  let valueStr ← trimAt valueStr
  let text ← readString bufferSize valueStr
  pure (parseValue text)

/-- The loop of `config_load` to the end of a line. -/
def findEol : (fuel eol : Nat) → Access Nat
  | 0, eol => pure eol
  | fuel + 1, eol => do
      let c ← load eol
      if isLineEnd c then pure eol else findEol fuel (eol + 1)

/-- The loop of `config_load` to the equals sign. -/
def findEq : (fuel eq : Nat) → Access Nat
  | 0, eq => pure eq
  | fuel + 1, eq => do
      let c ← load eq
      if c = 0 ∨ c = '='.toUInt8 then pure eq else findEq fuel (eq + 1)

/-- What `config_load` does with a line that is neither empty nor a comment. -/
def enterLine (entries : List Entry) (trimmed : Nat) : Access (List Entry) := do
  let eq ← findEq bufferSize trimmed
  let c ← load eq
  if c = '='.toUInt8 then do
    store eq 0
    let key ← trimAt trimmed
    let value ← trimAt (eq + 1)
    let c ← load key
    if c = 0 then pure entries
    else do
      let name ← readString bufferSize key
      if (entries.any fun entry => entry.key = name) ∨ entries.length < maxEntries then do
        let parsed ← parseValueAt value
        pure (assign entries name parsed)
      else pure entries
  else pure entries

/-- What `config_load` does with a line that is cut at both ends. -/
def readLine (entries : List Entry) (trimmed : Nat) : Access (List Entry) := do
  let c ← load trimmed
  if c = 0 ∨ c = '#'.toUInt8 then pure entries else enterLine entries trimmed

/-- The first character of a pair is passed. -/
def passPair (first second : UInt8) (eol : Nat) : Access Nat := do
  let c ← load eol
  if c = first then do
    let d ← load (eol + 1)
    if d = second then pure (eol + 1) else pure eol
  else pure eol

/-- The body of the loop of `config_load`. -/
def loadLineAt (entries : List Entry) (line : Nat) : Access (List Entry × Nat) := do
  let eol ← findEol bufferSize line
  let saved ← load eol
  store eol 0
  let trimmed ← trimAt line
  let entries ← readLine entries trimmed
  store eol saved
  let eol ← passPair '\r'.toUInt8 '\n'.toUInt8 eol
  let eol ← passPair '\n'.toUInt8 '\r'.toUInt8 eol
  pure (entries, eol + 1)

/-- The loop of `config_load` in its buffer, if a number of rounds is enough for it. -/
def loadLines : (rounds : Nat) → List Entry → (line : Nat) → Access (Option (List Entry))
  | 0, _, _ => pure none
  | rounds + 1, entries, line => do
      let c ← load line
      if c = 0 then pure (some entries)
      else do
        let (entries, line) ← loadLineAt entries line
        loadLines rounds entries line

/-- The buffer of `config_load` on the stack with the bytes that are read from the file. -/
def fileBuffer (stack : ByteMemory) (contents : List UInt8) : ByteMemory :=
  (stack.storeBytes 0 contents).writeByte contents.length 0

/-- `config_load` of a file of which some bytes are read. -/
def configLoadAt (entries : List Entry) (contents : List UInt8) (stack : ByteMemory)
    (rounds : Nat) : Outcome (Option (List Entry)) :=
  if contents = [] then ⟨some (defaults entries), stack, []⟩
  else loadLines rounds (defaults entries) 0 (fileBuffer stack contents)

section Strings

variable {limit fuel str : Nat} {memory : ByteMemory} {text : List UInt8}

theorem isBlank_zero : isBlank 0 = false := by decide

theorem skipBlanks_spec (spells : Spells memory str text) (enough : text.length < fuel)
    (inside : str + text.length ≤ limit) :
    Ensures limit (skipBlanks fuel str) memory fun str' memory' =>
      memory' = memory ∧ str' = str + (text.takeWhile isBlank).length := by
  induction text generalizing str fuel with
  | nil =>
      obtain ⟨fuel, rfl⟩ := Nat.exists_eq_succ_of_ne_zero enough.ne_bot
      rw [List.length_nil, Nat.add_zero] at inside
      apply Ensures.load_bind inside
      have ended : memory str = 0 := spells
      rw [ended, isBlank_zero]
      exact .pure ⟨rfl, rfl⟩
  | cons c text ih =>
  rw [List.length_cons] at enough inside
  obtain ⟨fuel, rfl⟩ := Nat.exists_eq_succ_of_ne_zero (Nat.ne_zero_of_lt enough)
  apply Ensures.load_bind (by omega)
  rw [spells.1]
  by_cases blank : isBlank c = true
  · rw [if_pos blank, List.takeWhile_cons_of_pos blank, List.length_cons]
    apply (ih spells.2.2 (by omega) (by omega)).mono
    rintro str' memory' ⟨same, place⟩
    exact ⟨same, by omega⟩
  · rw [if_neg blank, List.takeWhile_cons_of_neg blank]
    exact .pure ⟨rfl, rfl⟩

theorem kstrlen_spec {len : Nat} (spells : Spells memory (str + len) text)
    (enough : text.length < fuel) (inside : str + len + text.length ≤ limit) :
    Ensures limit (kstrlen str fuel len) memory fun len' memory' =>
      memory' = memory ∧ len' = len + text.length := by
  induction text generalizing len fuel with
  | nil =>
      obtain ⟨fuel, rfl⟩ := Nat.exists_eq_succ_of_ne_zero enough.ne_bot
      rw [List.length_nil, Nat.add_zero] at inside
      apply Ensures.load_bind inside
      have ended : memory (str + len) = 0 := spells
      rw [ended, if_pos rfl]
      exact .pure ⟨rfl, rfl⟩
  | cons c text ih =>
  rw [List.length_cons] at enough inside
  obtain ⟨fuel, rfl⟩ := Nat.exists_eq_succ_of_ne_zero (Nat.ne_zero_of_lt enough)
  apply Ensures.load_bind (by omega)
  rw [spells.1, if_neg spells.2.1]
  apply (@ih _ (len + 1) spells.2.2 (by omega) (by omega)).mono
  rintro len' memory' ⟨same, length⟩
  refine ⟨same, ?_⟩
  rw [length, List.length_cons]
  omega

theorem readString_spec (spells : Spells memory str text) (enough : text.length < fuel)
    (inside : str + text.length ≤ limit) :
    Ensures limit (readString fuel str) memory fun text' memory' =>
      memory' = memory ∧ text' = text := by
  induction text generalizing str fuel with
  | nil =>
      obtain ⟨fuel, rfl⟩ := Nat.exists_eq_succ_of_ne_zero enough.ne_bot
      rw [List.length_nil, Nat.add_zero] at inside
      apply Ensures.load_bind inside
      have ended : memory str = 0 := spells
      rw [ended, if_pos rfl]
      exact .pure ⟨rfl, rfl⟩
  | cons c text ih =>
  rw [List.length_cons] at enough inside
  obtain ⟨fuel, rfl⟩ := Nat.exists_eq_succ_of_ne_zero (Nat.ne_zero_of_lt enough)
  apply Ensures.load_bind (by omega)
  rw [spells.1, if_neg spells.2.1]
  apply (@ih fuel (str + 1) spells.2.2 (by omega) (by omega)).bind
  rintro text' memory' ⟨same, rfl⟩
  exact .pure ⟨same, rfl⟩

theorem findEq_spec (spells : Spells memory str text) (enough : text.length < fuel)
    (inside : str + text.length ≤ limit) :
    Ensures limit (findEq fuel str) memory fun eq memory' =>
      memory' = memory ∧ eq = str + (text.takeWhile (· ≠ '='.toUInt8)).length := by
  induction text generalizing str fuel with
  | nil =>
      obtain ⟨fuel, rfl⟩ := Nat.exists_eq_succ_of_ne_zero enough.ne_bot
      rw [List.length_nil, Nat.add_zero] at inside
      apply Ensures.load_bind inside
      have ended : memory str = 0 := spells
      rw [ended, if_pos (.inl rfl)]
      exact .pure ⟨rfl, rfl⟩
  | cons c text ih =>
  rw [List.length_cons] at enough inside
  obtain ⟨fuel, rfl⟩ := Nat.exists_eq_succ_of_ne_zero (Nat.ne_zero_of_lt enough)
  apply Ensures.load_bind (by omega)
  rw [spells.1]
  by_cases equal : c = '='.toUInt8
  · rw [if_pos (.inr equal), List.takeWhile_cons_of_neg (by simp [equal])]
    exact .pure ⟨rfl, rfl⟩
  · have other : ¬(c = 0 ∨ c = '='.toUInt8) := not_or.mpr ⟨spells.2.1, equal⟩
    rw [if_neg other, List.takeWhile_cons_of_pos (by simp [equal]), List.length_cons]
    apply (ih spells.2.2 (by omega) (by omega)).mono
    rintro eq memory' ⟨same, place⟩
    exact ⟨same, by omega⟩

/-- The loop back over the blanks at the end stops behind what `rdropWhile` leaves. -/
theorem skipBack_spec {ahead : Nat} (spells : Spells memory str text)
    (solid : ∀ c ∈ text.head?, isBlank c = false) (within : ahead < text.length)
    (inside : str + text.length ≤ limit) :
    Ensures limit (skipBack str ahead) memory fun last memory' =>
      memory' = memory ∧
        last + 1 = str + ((text.take (ahead + 1)).rdropWhile isBlank).length := by
  induction ahead with
  | zero =>
      cases text with
      | nil => cases within
      | cons c text =>
          have first : isBlank c = false := solid c rfl
          have kept : [c].rdropWhile isBlank = [c] :=
            List.rdropWhile_concat_neg _ [] c (by simp [first])
          rw [Nat.zero_add, List.take_succ_cons, List.take_zero, kept]
          exact .pure ⟨rfl, rfl⟩
  | succ ahead ih =>
  have last : text.take (ahead + 1 + 1) = text.take (ahead + 1) ++ [text[ahead + 1]] :=
    (List.take_concat_get' text (ahead + 1) within).symm
  apply Ensures.load_bind (by omega)
  rw [(spells.getElem within).1, last]
  by_cases blank : isBlank text[ahead + 1] = true
  · rw [if_pos blank, List.rdropWhile_concat_pos _ _ _ blank]
    exact ih (by omega)
  · rw [if_neg blank, List.rdropWhile_concat_neg _ _ _ blank, List.length_append,
      List.length_take_of_le (by omega), List.length_singleton]
    exact .pure ⟨rfl, by omega⟩

theorem take_length_rdropWhile (text : List UInt8) :
    text.take (text.rdropWhile isBlank).length = text.rdropWhile isBlank :=
  (List.prefix_iff_eq_take.mp (List.rdropWhile_prefix isBlank text)).symm

theorem length_trim_le (text : List UInt8) :
    (text.takeWhile isBlank).length + (trim text).length ≤ text.length := by
  have split := congrArg List.length (List.takeWhile_append_dropWhile (p := isBlank) (l := text))
  have cut := (List.rdropWhile_prefix isBlank (text.dropWhile isBlank)).length_le
  rw [List.length_append] at split
  rw [trim]
  omega

theorem drop_takeWhile_length (text : List UInt8) :
    text.drop (text.takeWhile isBlank).length = text.dropWhile isBlank := by
  induction text with
  | nil => rfl
  | cons c text ih =>
      by_cases blank : isBlank c = true
      · rw [List.takeWhile_cons_of_pos blank, List.dropWhile_cons_of_pos blank]
        exact ih
      · rw [List.takeWhile_cons_of_neg blank, List.dropWhile_cons_of_neg blank]
        rfl

theorem isBlank_head_dropWhile (text : List UInt8) :
    ∀ c ∈ (text.dropWhile isBlank).head?, isBlank c = false := by
  intro c first
  have some : text.dropWhile isBlank ≠ [] := by
    intro none
    rw [none] at first
    cases first
  have head := List.head_dropWhile_not isBlank some
  rwa [List.head_of_mem_head? first] at head

/-- `trim` cuts the string in place, and touches nothing else. -/
theorem trimAt_spec (spells : Spells memory str text) (enough : text.length < bufferSize)
    (inside : str + text.length ≤ limit) :
    Ensures limit (trimAt str) memory fun str' memory' =>
      Spells memory' str' (trim text) ∧ str' + (trim text).length ≤ str + text.length ∧
        ∀ other, other < str ∨ str + text.length ≤ other → memory' other = memory other := by
  have start := length_trim_le text
  have length : (text.takeWhile isBlank).length + (text.dropWhile isBlank).length =
      text.length := by
    rw [← List.length_append, List.takeWhile_append_dropWhile]
  have body := spells.drop (Nat.le_of_add_right_le length.le)
  have solid := isBlank_head_dropWhile text
  rw [drop_takeWhile_length] at body
  rw [trim] at start ⊢
  apply (skipBlanks_spec spells enough inside).bind
  rintro str' memory' ⟨rfl, rfl⟩
  apply Ensures.load_bind (by omega)
  generalize text.dropWhile isBlank = rest at *
  cases rest with
  | nil =>
      have ended : memory' (str + (text.takeWhile isBlank).length) = 0 := body
      rw [if_pos ended]
      exact .pure ⟨body, by omega, fun _ _ => rfl⟩
  | cons c rest =>
  rw [List.length_cons] at length
  rw [body.1, if_neg body.2.1]
  have counted := @kstrlen_spec limit bufferSize
    (str + (text.takeWhile isBlank).length) memory' (c :: rest) 0 body
    (by rw [List.length_cons]; omega) (by rw [List.length_cons]; omega)
  apply counted.bind
  rintro len memory'' ⟨rfl, rfl⟩
  rw [List.length_cons, Nat.zero_add, Nat.add_sub_cancel]
  apply (skipBack_spec body solid (Nat.lt_succ_self _)
    (by rw [List.length_cons]; omega)).bind
  rintro last memory' ⟨rfl, place⟩
  rw [← List.length_cons (a := c), List.take_length] at place
  have shorter := (List.rdropWhile_prefix isBlank (c :: rest)).length_le
  have cut := body.take shorter
  rw [take_length_rdropWhile, ← place] at cut
  rw [List.length_cons] at shorter
  apply Ensures.store_bind (by omega)
  refine .pure ⟨cut, by omega, ?_⟩
  intro other outside
  by_cases here : other = last + 1
  · have ended := spells.ended
    have place : other = str + text.length := by omega
    rw [here, ByteMemory.writeByte_self, ← here, place, ended]
  · exact ByteMemory.writeByte_of_ne here

theorem trim_trim (text : List UInt8) : trim (trim text) = trim text := by
  have first : (trim text).dropWhile isBlank = trim text := by
    apply List.dropWhile_eq_self_iff.mpr
    intro some
    have some : trim text ≠ [] := List.ne_nil_of_length_pos some
    have start : trim text <+: text.dropWhile isBlank := List.rdropWhile_prefix isBlank _
    rw [← List.head_eq_getElem some, start.head some, List.head_dropWhile_not isBlank]
    exact Bool.false_ne_true
  rw [trim, first, trim, List.rdropWhile_idempotent]

theorem parseValue_trim (text : List UInt8) : parseValue (trim text) = parseValue text := by
  rw [parseValue, parseValue, trim_trim]

theorem parseValueAt_spec (spells : Spells memory str text) (enough : text.length < bufferSize)
    (inside : str + text.length ≤ limit) :
    Ensures limit (parseValueAt str) memory fun value memory' =>
      value = parseValue text ∧
        ∀ other, other < str ∨ str + text.length ≤ other → memory' other = memory other := by
  have shorter := length_trim_le text
  apply (trimAt_spec spells enough inside).bind
  rintro str' memory' ⟨cut, within, frame⟩
  apply (readString_spec cut (by omega) (by omega)).bind
  rintro text' memory'' ⟨rfl, rfl⟩
  exact .pure ⟨parseValue_trim text, frame⟩

end Strings

/-! ## What is done with a line -/

section Lines

variable {limit str : Nat} {memory : ByteMemory} {text : List UInt8} {entries : List Entry}

/-- What a line that is cut at both ends enters into the table. -/
def entered (entries : List Entry) (trimmed : List UInt8) : List Entry :=
  match trimmed.dropWhile (· ≠ '='.toUInt8) with
  | [] => entries
  | _ :: value =>
      let key := trim (trimmed.takeWhile (· ≠ '='.toUInt8))
      if key = [] then entries else assign entries key (parseValue (trim value))

theorem loadLine_eq (line : List UInt8) :
    loadLine entries line =
      if trim line = [] ∨ (trim line).head? = some '#'.toUInt8 then entries
      else entered entries (trim line) := by
  rw [loadLine, assignment]
  by_cases skipped : trim line = [] ∨ (trim line).head? = some '#'.toUInt8
  · simp only [if_pos skipped]
  · simp only [if_neg skipped, entered]
    cases (trim line).dropWhile (· ≠ '='.toUInt8) with
    | nil => rfl
    | cons sign value =>
        by_cases empty : trim ((trim line).takeWhile (· ≠ '='.toUInt8)) = []
        · simp only [if_pos empty]
        · simp only [if_neg empty]

theorem assign_of_full {key : List UInt8} {value : Value}
    (full : ¬((entries.any fun entry => entry.key = key) ∨ entries.length < maxEntries)) :
    assign entries key value = entries := by
  rw [not_or] at full
  rw [assign, if_neg full.1, if_neg full.2]

theorem enterLine_spec (spells : Spells memory str text) (enough : text.length < bufferSize)
    (inside : str + text.length ≤ limit) :
    Ensures limit (enterLine entries str) memory fun entries' memory' =>
      entries' = entered entries text ∧
        ∀ other, str + text.length ≤ other → memory' other = memory other := by
  have parts := List.takeWhile_append_dropWhile (p := (· ≠ '='.toUInt8)) (l := text)
  have sign_is := List.head?_dropWhile_not (fun c => decide (c ≠ '='.toUInt8)) text
  apply (findEq_spec spells enough inside).bind
  rintro eq memory' ⟨rfl, rfl⟩
  rw [entered]
  generalize text.takeWhile (· ≠ '='.toUInt8) = name at *
  generalize text.dropWhile (· ≠ '='.toUInt8) = rest at *
  subst parts
  rw [List.length_append] at enough inside ⊢
  have whole : name.length ≤ (name ++ rest).length := by
    rw [List.length_append]
    exact Nat.le_add_right _ _
  have behind := spells.drop whole
  have name_there := spells.take whole
  rw [List.drop_left] at behind
  rw [List.take_left] at name_there
  apply Ensures.load_bind (by omega)
  cases rest with
  | nil =>
      have ended : memory' (str + name.length) = 0 := behind
      rw [ended, if_neg (by decide)]
      exact .pure ⟨rfl, fun _ _ => rfl⟩
  | cons sign value =>
  rw [List.length_cons] at enough inside ⊢
  have equal : sign = '='.toUInt8 := by simpa using sign_is
  rw [behind.1, if_pos equal]
  apply Ensures.store_bind (by omega)
  have value_there : Spells (memory'.writeByte (str + name.length) 0)
      (str + name.length + 1) value := by
    apply behind.2.2.congr
    intro k within
    exact ByteMemory.writeByte_of_ne (by omega)
  apply (trimAt_spec name_there (by omega) (by omega)).bind
  rintro key memory₁ ⟨key_there, key_within, frame₁⟩
  have value_there : Spells memory₁ (str + name.length + 1) value := by
    apply value_there.congr
    intro k within
    exact frame₁ _ (.inr (by omega))
  apply (trimAt_spec value_there (by omega) (by omega)).bind
  rintro value_at memory₂ ⟨value_there, value_within, frame₂⟩
  have key_there : Spells memory₂ key (trim name) := by
    apply key_there.congr
    intro k within
    exact frame₂ _ (.inl (by omega))
  have name_cut := length_trim_le name
  have value_cut := length_trim_le value
  have frame : ∀ other, str + (name.length + (value.length + 1)) ≤ other →
      memory₂ other = memory' other := by
    intro other outside
    rw [frame₂ other (.inr (by omega)), frame₁ other (.inr (by omega))]
    exact ByteMemory.writeByte_of_ne (by omega)
  apply Ensures.load_bind (by omega)
  by_cases empty : trim name = []
  · rw [empty] at key_there
    have ended : memory₂ key = 0 := key_there
    rw [ended, if_pos rfl]
    simp only [if_pos empty]
    exact .pure ⟨rfl, frame⟩
  have first : memory₂ key ≠ 0 := by
    have start := key_there.getElem (List.length_pos_iff.mpr empty)
    rw [Nat.add_zero] at start
    rw [start.1]
    exact start.2
  rw [if_neg first]
  simp only [if_neg empty]
  apply (readString_spec key_there (by omega) (by omega)).bind
  rintro name' memory₃ ⟨rfl, rfl⟩
  split
  next room =>
    apply (parseValueAt_spec value_there (by omega) (by omega)).bind
    rintro parsed memory₄ ⟨rfl, frame₃⟩
    refine .pure ⟨rfl, ?_⟩
    intro other outside
    rw [frame₃ other (.inr (by omega)), frame other outside]
  next full => exact .pure ⟨(assign_of_full full).symm, frame⟩

theorem readLine_spec (spells : Spells memory str text) (enough : text.length < bufferSize)
    (inside : str + text.length ≤ limit) :
    Ensures limit (readLine entries str) memory fun entries' memory' =>
      entries' = (if text = [] ∨ text.head? = some '#'.toUInt8 then entries
        else entered entries text) ∧
        ∀ other, str + text.length ≤ other → memory' other = memory other := by
  apply Ensures.load_bind (Nat.le_of_add_right_le inside)
  cases text with
  | nil =>
      have ended : memory str = 0 := spells
      rw [if_pos (.inl ended), if_pos (.inl rfl)]
      exact .pure ⟨rfl, fun _ _ => rfl⟩
  | cons c text =>
  by_cases comment : c = '#'.toUInt8
  · rw [spells.1, if_pos (.inr comment), if_pos (.inr (congrArg some comment))]
    exact .pure ⟨rfl, fun _ _ => rfl⟩
  · have entering : ¬(memory str = 0 ∨ memory str = '#'.toUInt8) := by
      rw [spells.1]
      exact not_or.mpr ⟨spells.2.1, comment⟩
    rw [if_neg entering, if_neg (by simp [comment])]
    exact enterLine_spec spells enough inside

end Lines

/-- A zero at the beginning of a line, at which `config_load` stops. -/
def HasEmptyLine (memory : List UInt8) : Prop :=
  ∃ before after, memory = before ++ 0 :: after ∧ ∀ c ∈ before.getLast?, isLineEnd c

/-- The rest of the file from the next line on. -/
abbrev following (rest : List UInt8) : List UInt8 :=
  nextLine (rest.dropWhile fun c => !isLineEnd c)

/-- What is left when the first character of a pair is passed. -/
def passed (first second : UInt8) (eol : List UInt8) : List UInt8 :=
  if eol.take 2 = [first, second] then eol.drop 1 else eol

theorem nextLine_eq (eol : List UInt8) :
    nextLine eol =
      (passed '\n'.toUInt8 '\r'.toUInt8 (passed '\r'.toUInt8 '\n'.toUInt8 eol)).drop 1 :=
  rfl

section Buffer

variable {limit line : Nat} {memory : ByteMemory} {rest : List UInt8}

theorem findEol_spec {fuel : Nat} (holds : Holds memory line rest) (ended : 0 ∈ rest)
    (enough : rest.length ≤ fuel) (inside : line + rest.length ≤ limit + 1) :
    Ensures limit (findEol fuel line) memory fun eol memory' =>
      memory' = memory ∧ eol = line + (rest.takeWhile fun c => !isLineEnd c).length := by
  induction rest generalizing line fuel with
  | nil => cases ended
  | cons c rest ih =>
  rw [List.length_cons] at enough inside
  obtain ⟨fuel, rfl⟩ := Nat.exists_eq_succ_of_ne_zero (Nat.ne_zero_of_lt enough)
  apply Ensures.load_bind (by omega)
  rw [holds.1]
  by_cases stop : isLineEnd c = true
  · rw [if_pos stop, List.takeWhile_cons_of_neg (by simp [stop])]
    exact .pure ⟨rfl, rfl⟩
  · have later : 0 ∈ rest := by
      cases ended with
      | head => exact absurd rfl stop
      | tail _ later => exact later
    rw [if_neg stop, List.takeWhile_cons_of_pos (by simp [stop]), List.length_cons]
    apply (ih holds.2 later (by omega) (by omega)).mono
    rintro eol memory' ⟨same, place⟩
    exact ⟨same, by omega⟩

theorem passPair_spec {first second : UInt8} {eol : Nat} {ends : List UInt8}
    (holds : Holds memory eol ends) (ended : 0 ∈ ends) (solid : first ≠ 0)
    (inside : eol + ends.length ≤ limit + 1) :
    Ensures limit (passPair first second eol) memory fun eol' memory' =>
      memory' = memory ∧ Holds memory eol' (passed first second ends) ∧
        0 ∈ passed first second ends ∧
        eol' + (passed first second ends).length = eol + ends.length := by
  cases ends with
  | nil => cases ended
  | cons c ends =>
  rw [List.length_cons] at inside ⊢
  apply Ensures.load_bind (by omega)
  rw [holds.1]
  by_cases one : c = first
  · have later : 0 ∈ ends := by
      cases ended with
      | head => exact absurd one.symm solid
      | tail _ later => exact later
    rw [if_pos one]
    cases ends with
    | nil => cases later
    | cons d ends =>
    rw [List.length_cons] at inside ⊢
    apply Ensures.load_bind (by omega)
    rw [holds.2.1]
    by_cases two : d = second
    · have pair : passed first second (c :: d :: ends) = d :: ends := by
        rw [passed, one, two]
        exact if_pos rfl
      rw [if_pos two, pair, List.length_cons]
      exact .pure ⟨rfl, holds.2, later, by omega⟩
    · have apart : passed first second (c :: d :: ends) = c :: d :: ends := by
        simp [passed, two]
      rw [if_neg two, apart]
      exact .pure ⟨rfl, holds, ended, rfl⟩
  · have apart : passed first second (c :: ends) = c :: ends := by
      simp [passed, one]
    rw [if_neg one, apart]
    exact .pure ⟨rfl, holds, ended, rfl⟩

/-- A line is entered as its text says, and the bytes behind its end stay. -/
theorem loadLineAt_spec {entries : List Entry} (holds : Holds memory line rest)
    (ended : 0 ∈ rest) (fits : rest.length ≤ bufferSize)
    (inside : line + rest.length ≤ limit + 1) :
    Ensures limit (loadLineAt entries line) memory fun result memory' =>
      result.1 = loadLine entries (rest.takeWhile fun c => !isLineEnd c) ∧
        Holds memory' result.2 (following rest) ∧
        result.2 + (following rest).length = line + rest.length := by
  rw [following]
  have parts := List.takeWhile_append_dropWhile (p := fun c => !isLineEnd c) (l := rest)
  have solid : ∀ c ∈ rest.takeWhile (fun c => !isLineEnd c), c ≠ 0 := by
    intro c mem zero
    have open_line := List.mem_takeWhile_imp mem
    rw [zero] at open_line
    cases open_line
  apply (findEol_spec holds ended fits inside).bind
  rintro eol memory' ⟨rfl, rfl⟩
  generalize rest.takeWhile (fun c => !isLineEnd c) = text at *
  generalize rest.dropWhile (fun c => !isLineEnd c) = ends at *
  subst parts
  rw [List.length_append] at fits inside ⊢
  have ended : 0 ∈ ends := by
    cases List.mem_append.mp ended with
    | inl early => exact absurd rfl (solid 0 early)
    | inr late => exact late
  have some := List.length_pos_of_mem ended
  have spells := holds.spells solid
  have behind := holds.append_right
  have shorter := length_trim_le text
  apply Ensures.load_bind (by omega)
  apply Ensures.store_bind (by omega)
  apply (trimAt_spec spells (by omega) (by omega)).bind
  rintro trimmed memory₁ ⟨cut, within, frame⟩
  have read := @readLine_spec limit trimmed memory₁ (trim text) entries cut (by omega) (by omega)
  rw [← loadLine_eq] at read
  apply read.bind
  rintro entries' memory₂ ⟨rfl, frame₂⟩
  apply Ensures.store_bind (by omega)
  have restored : Holds (memory₂.writeByte (line + text.length) (memory' (line + text.length)))
      (line + text.length) ends := by
    apply behind.congr
    intro other above
    by_cases here : other = line + text.length
    · rw [here, ByteMemory.writeByte_self]
    · rw [ByteMemory.writeByte_of_ne here, frame₂ other (by omega), frame other (.inr above),
        ByteMemory.writeByte_of_ne here]
  apply (passPair_spec restored ended (by decide) (by omega)).bind
  rintro eol memory₃ ⟨rfl, restored, ended, place⟩
  apply (passPair_spec restored ended (by decide) (by omega)).bind
  rintro eol' memory₄ ⟨rfl, restored, ended, place'⟩
  have more := List.length_pos_of_mem ended
  rw [nextLine_eq]
  generalize passed '\n'.toUInt8 '\r'.toUInt8 (passed '\r'.toUInt8 '\n'.toUInt8 ends) = left at *
  cases left with
  | nil => cases more
  | cons c left =>
      rw [List.length_cons] at place'
      refine .pure ⟨rfl, restored.2, ?_⟩
      rw [List.drop_succ_cons, List.drop_zero]
      omega

end Buffer

/-! ## Empty lines -/

theorem passed_cases (first second : UInt8) (eol : List UInt8) :
    passed first second eol = eol ∨
      ∃ rest, eol = first :: second :: rest ∧ passed first second eol = second :: rest := by
  by_cases pair : eol.take 2 = [first, second]
  · obtain ⟨rest, rfl⟩ : ∃ rest, eol = first :: second :: rest := by
      have parts := List.take_append_drop 2 eol
      rw [pair] at parts
      exact ⟨_, parts.symm⟩
    exact .inr ⟨rest, rfl, if_pos rfl⟩
  · exact .inl (if_neg pair)

theorem exists_passed {e : UInt8} {ends : List UInt8} (stop : isLineEnd e = true) :
    ∃ tail, e :: ends = tail ++ nextLine (e :: ends) ∧ tail ≠ [] ∧
      (∀ c ∈ tail, isLineEnd c) ∧ (0 ∈ tail → tail = [0]) := by
  rw [nextLine_eq]
  cases passed_cases '\r'.toUInt8 '\n'.toUInt8 (e :: ends) with
  | inl same =>
      rw [same]
      cases passed_cases '\n'.toUInt8 '\r'.toUInt8 (e :: ends) with
      | inl same =>
          rw [same]
          refine ⟨[e], rfl, List.cons_ne_nil _ _, ?_, ?_⟩
          · intro c mem
            rwa [List.mem_singleton.mp mem]
          · intro zero
            rw [← List.mem_singleton.mp zero]
      | inr pair =>
          obtain ⟨rest, eol, left⟩ := pair
          rw [left, eol]
          exact ⟨['\n'.toUInt8, '\r'.toUInt8], rfl, by decide, List.all_eq_true.mp rfl,
            by decide⟩
  | inr pair =>
  obtain ⟨rest, eol, left⟩ := pair
  rw [left, eol]
  cases passed_cases '\n'.toUInt8 '\r'.toUInt8 ('\n'.toUInt8 :: rest) with
  | inl same =>
      rw [same]
      exact ⟨['\r'.toUInt8, '\n'.toUInt8], rfl, by decide, List.all_eq_true.mp rfl,
        by decide⟩
  | inr pair =>
      obtain ⟨rest', eol', left⟩ := pair
      rw [left, eol']
      exact ⟨['\r'.toUInt8, '\n'.toUInt8, '\r'.toUInt8], rfl, by decide,
        List.all_eq_true.mp rfl, by decide⟩

section EmptyLines

variable {rest : List UInt8}

theorem exists_line (ended : 0 ∈ rest) :
    ∃ text tail, rest = text ++ (tail ++ following rest) ∧ (∀ c ∈ text, isLineEnd c = false) ∧
      tail ≠ [] ∧ (∀ c ∈ tail, isLineEnd c) ∧ (0 ∈ tail → tail = [0]) := by
  have parts := List.takeWhile_append_dropWhile (p := fun c => !isLineEnd c) (l := rest)
  have first := List.head?_dropWhile_not (fun c => !isLineEnd c) rest
  have plain : ∀ c ∈ rest.takeWhile (fun c => !isLineEnd c), isLineEnd c = false := by
    intro c mem
    simpa using List.mem_takeWhile_imp mem
  rw [following]
  cases eol : rest.dropWhile (fun c => !isLineEnd c) with
  | nil =>
      rw [eol, List.append_nil] at parts
      rw [parts] at plain
      exact absurd (plain 0 ended) (by decide)
  | cons e ends =>
  rw [eol] at parts first
  have stop : isLineEnd e = true := by simpa using first
  obtain ⟨tail, split, some, stops, zero⟩ := @exists_passed e ends stop
  refine ⟨_, tail, ?_, plain, some, stops, zero⟩
  rw [← split]
  exact parts.symm

theorem not_isLineEnd_before {text tail before more next : List UInt8}
    (plain : ∀ c ∈ text, isLineEnd c = false) (alone : 0 ∈ tail → tail = [0])
    (first : (text ++ (tail ++ next)).head? ≠ some 0)
    (whole : text ++ tail = before ++ 0 :: more) :
    ¬∀ c ∈ before.getLast?, isLineEnd c := by
  have zero : 0 ∈ text ++ tail := by
    rw [whole]
    exact List.mem_append_right _ List.mem_cons_self
  have in_tail : tail = [0] := by
    cases List.mem_append.mp zero with
    | inl inside => exact absurd (plain 0 inside) (by decide)
    | inr inside => exact alone inside
  subst in_tail
  have short : text = before := by
    cases List.append_eq_append_iff.mp whole with
    | inl longer =>
        obtain ⟨between, rfl, zero⟩ := longer
        cases between with
        | nil => rw [List.append_nil]
        | cons d between => simp at zero
    | inr shorter =>
    obtain ⟨between, rfl, tail_is⟩ := shorter
    cases between with
    | nil => rw [List.append_nil]
    | cons d between =>
        have equal : 0 = d := (List.cons.inj tail_is).1
        exact absurd (plain 0 (by simp [equal])) (by decide)
  subst short
  intro last
  cases text using List.reverseRecOn with
  | nil => exact first rfl
  | append_singleton text c =>
      have stop := last c List.getLast?_concat
      rw [plain c (by simp)] at stop
      cases stop

theorem hasEmptyLine_following (ended : 0 ∈ rest) (first : rest.head? ≠ some 0) :
    HasEmptyLine (following rest) ↔ HasEmptyLine rest := by
  obtain ⟨text, tail, split, plain, some, stops, alone⟩ := exists_line ended
  generalize following rest = next at *
  subst split
  constructor
  · rintro ⟨before, after, rfl, last⟩
    refine ⟨text ++ (tail ++ before), after, by simp, ?_⟩
    intro c is_last
    rw [List.getLast?_append, List.getLast?_append] at is_last
    cases before_last : before.getLast? with
    | some d =>
        rw [before_last] at is_last
        cases is_last
        exact last c before_last
    | none =>
        rw [before_last, Option.none_or, List.getLast?_eq_some_getLast some] at is_last
        cases is_last
        exact stops _ (List.getLast_mem some)
  rintro ⟨before, after, split, last⟩
  rw [← List.append_assoc] at split
  cases List.append_eq_append_iff.mp split with
  | inl inside =>
      obtain ⟨more, rfl, rfl⟩ := inside
      refine ⟨more, after, rfl, ?_⟩
      intro c is_last
      apply last
      rw [List.getLast?_append, is_last]
      rfl
  | inr inside =>
  obtain ⟨more, whole, zero⟩ := inside
  cases more with
  | nil => exact ⟨[], after, zero.symm, nofun⟩
  | cons d more =>
      cases zero
      exact absurd last (not_isLineEnd_before plain alone first whole)

theorem length_following_lt (ended : 0 ∈ rest) : (following rest).length < rest.length := by
  obtain ⟨text, tail, split, -, some, -⟩ := exists_line ended
  have more := List.length_pos_iff.mpr some
  have length := congrArg List.length split
  rw [List.length_append, List.length_append] at length
  omega

/-- The file is still ended by a zero. -/
theorem getLast_following (ended : 0 ∈ rest) (last : ∀ c ∈ rest.getLast?, c = 0) :
    ∀ c ∈ (following rest).getLast?, c = 0 := by
  intro c is_last
  obtain ⟨text, tail, split, -⟩ := exists_line ended
  apply last
  rw [split, List.getLast?_append, List.getLast?_append, is_last]
  rfl

end EmptyLines

section Loop

variable {limit line : Nat} {memory : ByteMemory} {rest : List UInt8}

/-- The loop ends in the buffer if the rest of the file has an empty line. -/
theorem loadLines_spec {rounds : Nat} {entries : List Entry} (holds : Holds memory line rest)
    (stops : HasEmptyLine rest) (fits : rest.length ≤ bufferSize)
    (inside : line + rest.length ≤ limit + 1) :
    Ensures limit (loadLines rounds entries line) memory fun entries' _ =>
      ∀ fuel, rest.length ≤ rounds → rest.length ≤ fuel →
        entries' = some (loadLoop fuel rest entries) := by
  induction rounds generalizing line memory rest entries with
  | zero =>
      obtain ⟨before, after, rfl, -⟩ := stops
      refine .pure ?_
      intro fuel enough
      simp at enough
  | succ rounds ih =>
  have ended : 0 ∈ rest := by
    obtain ⟨before, after, rfl, -⟩ := stops
    exact List.mem_append_right _ List.mem_cons_self
  have shorter := length_following_lt ended
  cases rest with
  | nil => cases ended
  | cons c rest =>
  apply Ensures.load_bind (by rw [List.length_cons] at inside; omega)
  rw [holds.1]
  by_cases zero : c = 0
  · rw [if_pos zero]
    refine .pure ?_
    intro fuel enough enough'
    obtain ⟨fuel, rfl⟩ := Nat.exists_eq_succ_of_ne_zero (Nat.ne_zero_of_lt enough')
    rw [loadLoop, if_pos (by simp [zero])]
  · have going := (hasEmptyLine_following ended (by simp [zero])).mpr stops
    rw [if_neg zero]
    apply (loadLineAt_spec holds ended fits inside).bind
    rintro ⟨entries', line'⟩ memory' ⟨rfl, holds', place⟩
    apply (ih holds' going (by omega) (by omega)).mono
    intro value memory'' result fuel enough enough'
    obtain ⟨fuel, rfl⟩ := Nat.exists_eq_succ_of_ne_zero (Nat.ne_zero_of_lt enough')
    rw [loadLoop, if_neg (by simp [zero])]
    exact result fuel (by omega) (by omega)

/-- The loop leaves the buffer if the rest of the file has no empty line. -/
theorem loadLines_leaves {rounds : Nat} {entries : List Entry} (holds : Holds memory line rest)
    (endless : ¬HasEmptyLine rest) (last : ∀ c ∈ rest.getLast?, c = 0)
    (fits : rest.length ≤ bufferSize) (enough : rest.length < rounds) :
    line + rest.length ∈ (loadLines rounds entries line memory).touched := by
  induction rounds generalizing line memory rest entries with
  | zero => cases enough
  | succ rounds ih =>
  cases rest with
  | nil => exact List.mem_append_left _ (List.mem_singleton_self line)
  | cons c rest =>
  have going : ¬memory line = 0 := by
    rw [holds.1]
    intro zero
    exact endless ⟨[], rest, by rw [zero]; rfl, nofun⟩
  have is_last := List.getLast?_eq_some_getLast (List.cons_ne_nil c rest)
  have ended : 0 ∈ c :: rest := by
    rw [last _ is_last] at is_last
    exact List.mem_of_getLast? is_last
  have shorter := length_following_lt ended
  have spec := (@loadLineAt_spec _ line memory _ entries holds ended fits
    (Nat.le_succ _)).post
  obtain ⟨-, holds', place⟩ := spec
  apply mem_touched_load_bind
  rw [if_neg going]
  apply mem_touched_bind
  rw [← place]
  apply ih holds'
  · rw [hasEmptyLine_following ended (by rwa [List.head?_cons, ← holds.1, ne_eq,
      Option.some_inj])]
    exact endless
  · exact getLast_following ended last
  · omega
  · omega

end Loop

/-- The table after `config_load` depends on the file alone, and no byte is touched behind the
bytes that are read and their end. -/
def Contained (contents : List UInt8) : Prop :=
  ∀ entries,
    (∃ entries', ∀ stack rounds, contents.length < rounds →
      (configLoadAt entries contents stack rounds).value = some entries') ∧
    ∀ stack rounds, ∀ index ∈ (configLoadAt entries contents stack rounds).touched,
      index ≤ contents.length

section Files

variable {contents : List UInt8}

theorem holds_fileBuffer (stack : ByteMemory) (contents : List UInt8) :
    Holds (fileBuffer stack contents) 0 (contents ++ [0]) := by
  apply Holds.of_getElem
  intro k inside
  rw [List.length_append, List.length_singleton] at inside
  rw [Nat.zero_add, fileBuffer]
  by_cases read : k < contents.length
  · rw [ByteMemory.writeByte_of_ne (Nat.ne_of_lt read),
      ByteMemory.storeBytes_of_inside (Nat.zero_le _) (by omega), Nat.sub_zero,
      List.getElem_append_left read, ← List.getElem_eq_getD]
  · have last : k = contents.length := by omega
    subst last
    rw [ByteMemory.writeByte_self, List.getElem_concat_length rfl]

theorem contained_of_hasEmptyLine (fits : contents.length < bufferSize)
    (stops : HasEmptyLine (contents ++ [0])) : Contained contents := by
  intro entries
  by_cases empty : contents = []
  · constructor
    · refine ⟨defaults entries, ?_⟩
      intro stack rounds enough
      rw [configLoadAt, if_pos empty]
    · intro stack rounds index touched
      rw [configLoadAt, if_pos empty] at touched
      cases touched
  have length : (contents ++ [0]).length = contents.length + 1 := List.length_append
  have spec : ∀ stack rounds, Ensures contents.length
      (loadLines rounds (defaults entries) 0) (fileBuffer stack contents) _ :=
    fun stack rounds => loadLines_spec (holds_fileBuffer stack contents) stops
      (by omega) (by omega)
  constructor
  · refine ⟨loadLoop (contents.length + 1) (contents ++ [0]) (defaults entries), ?_⟩
    intro stack rounds enough
    rw [configLoadAt, if_neg empty]
    exact (spec stack rounds).post _ (by omega) (by omega)
  · intro stack rounds
    rw [configLoadAt, if_neg empty]
    exact (spec stack rounds).touched

/-- A file without an empty line is read beyond the buffer. -/
theorem configLoadAt_leaves {entries : List Entry} {stack : ByteMemory}
    (fits : contents.length < bufferSize) (endless : ¬HasEmptyLine (contents ++ [0])) :
    contents.length + 1 ∈
      (configLoadAt entries contents stack (contents.length + 2)).touched := by
  have length : (contents ++ [0]).length = contents.length + 1 := List.length_append
  have some : contents ≠ [] := by
    intro empty
    rw [empty] at endless
    exact endless ⟨[], [], rfl, nofun⟩
  have leaves := @loadLines_leaves 0 (fileBuffer stack contents) (contents ++ [0])
    (contents.length + 2) (defaults entries) (holds_fileBuffer stack contents) endless
    (by simp) (by omega) (by omega)
  rw [configLoadAt, if_neg some]
  rwa [Nat.zero_add, length] at leaves

/-- A file is read in the buffer if and only if it has an empty line, the end of the file
counted in. -/
theorem contained_iff (fits : contents.length < bufferSize) :
    Contained contents ↔ HasEmptyLine (contents ++ [0]) := by
  constructor
  · intro contained
    by_contra endless
    have leaves := @configLoadAt_leaves contents [] (fun _ => 0) fits endless
    have inside := (contained []).2 _ _ _ leaves
    omega
  · exact contained_of_hasEmptyLine fits

/-- A line with an end of its own. -/
theorem contained_terminated : Contained (ascii "a=1\n") :=
  (contained_iff (by decide)).mpr ⟨ascii "a=1\n", [], rfl, fun _ last => by cases last; rfl⟩

/-- A stack on which another file was read before. -/
def usedStack : ByteMemory := ByteMemory.storeBytes (fun _ => 0) 4 (ascii "b=2\n")

/-- What was left on the stack is entered behind a line without an end. -/
theorem stack_is_read : ¬Contained (ascii "a=1") := by
  intro contained
  obtain ⟨entries, same⟩ := (contained []).1
  have fresh : ((configLoadAt [] (ascii "a=1") (fun _ => 0) 4).value.map
      fun entries => lookup entries (ascii "b")) = some none := by decide +kernel
  have used : ((configLoadAt [] (ascii "a=1") usedStack 4).value.map
      fun entries => lookup entries (ascii "b")) = some (some (.int 2)) := by decide +kernel
  rw [same _ _ (by decide), Option.map_some, Option.some_inj] at fresh used
  rw [fresh] at used
  cases used

end Files

end Charis.Config
