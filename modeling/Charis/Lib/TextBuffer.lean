import Charis.Lib.ByteMemory

/-!
# Texts in buffers

A buffer of fixed size holds a text of a length that is kept beside it, and a zero byte at its
end.  Characters are stored one by one, and one that does not fit is dropped.
-/

namespace Charis.Lib

open ByteMemory

/-- A buffer of `size` bytes and the length of the text in it. -/
structure TextBuffer (size : Nat) where
  bytes : ByteMemory
  length : Nat

namespace TextBuffer

variable {size : Nat} {buffer : TextBuffer size}

/-- Store a character and the byte at the end, where there is room for both. -/
def push (buffer : TextBuffer size) (char : UInt8) : TextBuffer size :=
  if size ≤ buffer.length + 1 then buffer
  else
    { bytes := (buffer.bytes.writeByte buffer.length char).writeByte (buffer.length + 1) 0
      length := buffer.length + 1 }

/-- Make the text empty. -/
def clear (buffer : TextBuffer size) : TextBuffer size :=
  { bytes := buffer.bytes.writeByte 0 0, length := 0 }

/-- The last character of a text that is not empty. -/
def last (buffer : TextBuffer size) : UInt8 := buffer.bytes (buffer.length - 1)

/-- The text in a buffer. -/
def text (buffer : TextBuffer size) : List UInt8 := buffer.bytes.loadBytes 0 buffer.length

/-- The text and its end lie in the buffer. -/
structure Terminated (buffer : TextBuffer size) : Prop where
  fits : buffer.length < size
  ends : buffer.bytes buffer.length = 0

theorem Terminated.clear (nonempty : 0 < size) : buffer.clear.Terminated := by
  constructor
  · exact nonempty
  · exact writeByte_self buffer.bytes 0 0

theorem Terminated.push (terminated : buffer.Terminated) (char : UInt8) :
    (buffer.push char).Terminated := by
  unfold TextBuffer.push
  split
  · exact terminated
  next room =>
    constructor
    · exact not_le.mp room
    · exact writeByte_self _ _ _

@[simp] theorem text_clear : buffer.clear.text = [] := rfl

@[simp] theorem clear_clear : buffer.clear.clear = buffer.clear := by
  unfold TextBuffer.clear
  congr 1
  funext address
  by_cases first : address = 0
  · rw [first, writeByte_self, writeByte_self]
  · rw [writeByte_of_ne first]

@[simp] theorem length_text : buffer.text.length = buffer.length :=
  length_loadBytes _ _ _

theorem text_push (char : UInt8) :
    (buffer.push char).text =
      if size ≤ buffer.length + 1 then buffer.text else buffer.text ++ [char] := by
  unfold TextBuffer.push
  split
  · rfl
  · unfold TextBuffer.text
    rw [loadBytes_append]
    congr 1
    · apply loadBytes_congr
      intro index _ below
      dsimp only
      rw [writeByte_of_ne (by omega), writeByte_of_ne (by omega)]
    · dsimp only
      rw [loadBytes, loadBytes, Nat.zero_add, writeByte_of_ne (Nat.ne_of_lt (Nat.lt_succ_self _)),
        writeByte_self]

/-- The characters of a text that has grown are those that it had, and the new one. -/
theorem mem_text_push {char other : UInt8} (mem : other ∈ (buffer.push char).text) :
    other ∈ buffer.text ∨ other = char := by
  rw [text_push] at mem
  split at mem
  · exact .inl mem
  · rwa [List.mem_append, List.mem_singleton] at mem

/-- A buffer that holds the start of a text still holds it when the text has grown. -/
theorem text_push_take {text : List UInt8} (held : buffer.text = text.take (size - 1))
    (char : UInt8) : (buffer.push char).text = (text ++ [char]).take (size - 1) := by
  have length : buffer.length = min (size - 1) text.length := by
    rw [← length_text, held, List.length_take]
  rw [text_push]
  split
  next full =>
    have beyond : size - 1 ≤ text.length := by omega
    rw [held, List.take_append_of_le_length beyond]
  next room =>
    have within : text.length + 1 ≤ size - 1 := by omega
    rw [held, List.take_of_length_le (Nat.le_of_succ_le within), List.take_of_length_le]
    rwa [List.length_append, List.length_singleton]

theorem last_eq (filled : buffer.length ≠ 0) : buffer.text.getLast? = some buffer.last := by
  obtain ⟨length, same⟩ := Nat.exists_eq_succ_of_ne_zero filled
  have split := loadBytes_append buffer.bytes 0 length 1
  rw [TextBuffer.text, TextBuffer.last, same, Nat.succ_eq_add_one, split, Nat.zero_add,
    Nat.add_sub_cancel, loadBytes, loadBytes, List.getLast?_append, List.getLast?_singleton]
  rfl

end TextBuffer

end Charis.Lib
