import Charis.Text.Numbers
import Mathlib.Data.List.DropRight

/-!
# The configuration store

A table of keys, each with a number, a string or a truth value, which is written to a file as
text and read back from it.  The text does not say what type a value has.

Strings are without the character that ends them.  A file is its contents: it is written in
place, so that what is behind the bytes that are written stays.
-/

namespace Charis.Config

open Charis.Net Charis.Text

/-- `CONFIG_MAX_ENTRIES`. -/
abbrev maxEntries : Nat := 64

/-- `CONFIG_KEY_MAX`. -/
abbrev keyMax : Nat := 32

/-- `CONFIG_VALUE_MAX`. -/
abbrev valueMax : Nat := 256

/-- A value, by its `config_type_t`. -/
inductive Value where
  | int (value : Int)
  | string (text : List UInt8)
  | bool (value : Bool)
  deriving DecidableEq, Repr

/-- `config_entry_t`. -/
structure Entry where
  key : List UInt8
  value : Value
  deriving DecidableEq, Repr

/-- The first entry with a key gets a value. -/
def update (key : List UInt8) (value : Value) : List Entry → List Entry
  | [] => []
  | entry :: rest =>
      if entry.key = key then { entry with value } :: rest
      else entry :: update key value rest

/-- A key gets a value.  A new entry is made for it when there is none and the table has
room. -/
def assign (entries : List Entry) (key : List UInt8) (value : Value) : List Entry :=
  if entries.any fun entry => entry.key = key then update key value entries
  else if entries.length < maxEntries then entries ++ [⟨key.take (keyMax - 1), value⟩]
  else entries

/-- `config_set_int`. -/
def configSetInt (entries : List Entry) (key : List UInt8) (value : Int) : List Entry :=
  assign entries key (.int value)

/-- `config_set_string`. -/
def configSetString (entries : List Entry) (key value : List UInt8) : List Entry :=
  assign entries key (.string (value.take (valueMax - 1)))

/-- `config_set_bool`. -/
def configSetBool (entries : List Entry) (key : List UInt8) (value : Bool) : List Entry :=
  assign entries key (.bool value)

/-- The value of a key, which `config_get_int` and the others return if it has their type. -/
def lookup (entries : List Entry) (key : List UInt8) : Option Value :=
  (entries.find? fun entry => entry.key = key).map Entry.value

/-- `config_init`. -/
def configInit : List Entry := []

/-- The characters that `trim` removes. -/
def isBlank (c : UInt8) : Bool :=
  c = ' '.toUInt8 || c = '\t'.toUInt8 || c = '\r'.toUInt8 || c = '\n'.toUInt8

/-- `trim`. -/
def trim (str : List UInt8) : List UInt8 := (str.dropWhile isBlank).rdropWhile isBlank

/-- The test of `parse_value` for a number. -/
def isInt (valueStr : List UInt8) : Bool :=
  (if valueStr.head? = some '-'.toUInt8 then valueStr.drop 1 else valueStr).all isDigit

/-- `parse_value`.  A number is stored as a 32-bit one. -/
def parseValue (valueStr : List UInt8) : Value :=
  let valueStr := trim valueStr
  if valueStr = ascii "true" ∨ valueStr = ascii "false" then .bool (valueStr = ascii "true")
  else if isInt valueStr ∧ valueStr ≠ [] then .int (Int.bmod (katoi valueStr 10) (2 ^ 32))
  else .string (valueStr.take (valueMax - 1))

/-- The characters at which `config_load` ends a line. -/
def isLineEnd (c : UInt8) : Bool := c = 0 || c = '\n'.toUInt8 || c = '\r'.toUInt8

/-- The key and the value in a line, if it has both. -/
def assignment (line : List UInt8) : Option (List UInt8 × Value) :=
  let trimmed := trim line
  if trimmed = [] ∨ trimmed.head? = some '#'.toUInt8 then none
  else
    match trimmed.dropWhile (· ≠ '='.toUInt8) with
    | [] => none
    | _ :: value =>
        let key := trim (trimmed.takeWhile (· ≠ '='.toUInt8))
        if key = [] then none else some (key, parseValue (trim value))

/-- A line is entered into the table. -/
def loadLine (entries : List Entry) (line : List UInt8) : List Entry :=
  match assignment line with
  | none => entries
  | some (key, value) => assign entries key value

/-- From the end of a line to the next one. -/
def nextLine (eol : List UInt8) : List UInt8 :=
  let eol := if eol.take 2 = ascii "\r\n" then eol.drop 1 else eol
  let eol := if eol.take 2 = ascii "\n\r" then eol.drop 1 else eol
  eol.drop 1

/-- The loop of `config_load`.  It goes on behind the character that ends the buffer, and it
stops at a line that begins with such a character.  Every round passes a character at
least. -/
def loadLoop : (fuel : Nat) → (memory : List UInt8) → List Entry → List Entry
  | 0, _, entries => entries
  | fuel + 1, memory, entries =>
      if memory.headD 0 = 0 then entries
      else
        loadLoop fuel (nextLine (memory.dropWhile fun c => !isLineEnd c))
          (loadLine entries (memory.takeWhile fun c => !isLineEnd c))

/-- The defaults that `config_load` begins with. -/
def defaults (entries : List Entry) : List Entry :=
  let entries := configSetString entries (ascii "theme") (ascii "charisos_dark")
  let entries := configSetInt entries (ascii "volume") 50
  let entries := configSetBool entries (ascii "boot_sound") true
  let entries := configSetInt entries (ascii "screen_brightness") 100
  configSetBool entries (ascii "net_enabled") true

/-- `sizeof(buf)` in `config_load` and `config_save`. -/
abbrev bufferSize : Nat := 4096

/-- `config_load` of a file, if there is one.  The stack behind the bytes that are read is
what was left there. -/
def configLoad (entries : List Entry) (file : Option (List UInt8)) (stack : List UInt8) :
    List Entry :=
  match file with
  | none => defaults entries
  | some contents =>
      let buf := contents.take (bufferSize - 1)
      if buf = [] then defaults entries
      else
        let memory := buf ++ 0 :: stack
        loadLoop memory.length memory (defaults entries)

/-- The text of a value in `config_save`. -/
def display : Value → List UInt8
  | .bool value => if value then ascii "true" else ascii "false"
  | .int value => kitoa value 10
  | .string text => text

/-- Text is appended to the buffer of `config_save`, up to its limit. -/
def appendText (buf text : List UInt8) : List UInt8 := buf ++ text.take (4000 - buf.length)

/-- The loop of `config_save`. -/
def saveLoop : List Entry → (buf : List UInt8) → List UInt8
  | [], buf => buf
  | entry :: rest, buf =>
      let buf := appendText buf entry.key
      if 4000 ≤ buf.length then buf
      else
        let buf := appendText (buf ++ ['='.toUInt8]) (display entry.value)
        if 4000 ≤ buf.length then buf else saveLoop rest (buf ++ ['\n'.toUInt8])

/-- `config_save` to a file, if there is one. -/
def configSave (entries : List Entry) (file : Option (List UInt8)) : Option (List UInt8) :=
  let buf := saveLoop entries []
  file.map fun contents => buf ++ contents.drop buf.length

section Table

variable {entries : List Entry} {key other : List UInt8} {value : Value}

theorem lookup_update (present : ∃ entry ∈ entries, entry.key = key) :
    lookup (update key value entries) other =
      if other = key then some value else lookup entries other := by
  induction entries with
  | nil =>
      obtain ⟨entry, member, -⟩ := present
      cases member
  | cons entry rest ih =>
  rw [update]
  split
  next same =>
    split
    next asked => simp [lookup, same, asked]
    next differs =>
      have : ¬entry.key = other := fun equal => differs (equal.symm.trans same)
      simp [lookup, this]
  next apart =>
    obtain ⟨found, member, has_key⟩ := present
    cases member with
    | head => exact absurd has_key apart
    | tail _ member =>
        have below := ih ⟨found, member, has_key⟩
        by_cases first : entry.key = other
        · have : ¬other = key := fun equal => apart (first.trans equal)
          simp [lookup, first, this]
        · simpa [lookup, first] using below

theorem lookup_append (added : Entry) :
    lookup (entries ++ [added]) other =
      (lookup entries other).or (if added.key = other then some added.value else none) := by
  rw [lookup, lookup, List.find?_append, Option.map_or]
  congr 1
  by_cases same : added.key = other
  · simp [same]
  · simp [same]

/-- A value is found under the key that it was assigned to, provided that the key had an entry
or there was room for it. -/
theorem lookup_assign
    (fits : (lookup entries other).isSome ∨
      (entries.length < maxEntries ∧ key.length < keyMax)) :
    lookup (assign entries key value) other =
      if other = key then some value else lookup entries other := by
  rw [assign]
  split
  next present =>
    apply lookup_update
    simpa using present
  next absent =>
    have missing : lookup entries key = none := by
      simpa [lookup] using absent
    cases fits with
    | inl found =>
        have apart : other ≠ key := by
          intro same
          rw [same, missing] at found
          cases found
        rw [if_neg apart]
        split
        · obtain ⟨before, holds⟩ := Option.isSome_iff_exists.mp found
          rw [lookup_append, holds]
          rfl
        · rfl
    | inr room =>
    have whole : key.take (keyMax - 1) = key :=
      List.take_of_length_le (Nat.le_sub_one_of_lt room.2)
    rw [if_pos room.1, lookup_append, whole]
    split
    next same =>
      have same : key = other := same
      rw [← same, missing, if_pos rfl, Option.none_or]
    next apart => rw [if_neg (Ne.symm apart), Option.or_none]

theorem length_update : (update key value entries).length = entries.length := by
  induction entries with
  | nil => rfl
  | cons entry rest ih =>
      rw [update]
      split
      · rfl
      · rw [List.length_cons, List.length_cons, ih]

theorem length_assign_le : (assign entries key value).length ≤ entries.length + 1 := by
  rw [assign]
  split
  · rw [length_update]
    exact Nat.le_succ _
  split
  · simp
  · exact Nat.le_succ _

end Table

end Charis.Config
