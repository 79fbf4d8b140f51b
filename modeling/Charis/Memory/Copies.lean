import Charis.Lib.ByteMemory
import Charis.Lib.Copying

/-!
# Copies of memory

`kmemmove` copies between places that overlap.  `kmemcpy` always copies upwards.
-/

namespace Charis.Memory

open Charis.Lib

/-- `kmemcpy`, with the address that it returns. -/
def kmemcpy (memory : ByteMemory) (dst src n : Nat) : Nat × ByteMemory :=
  if dst = 0 ∨ src = 0 then (0, memory)
  else if n = 0 ∨ dst = src then (dst, memory)
  else (dst, copyUp dst src n memory)

/-- `kmemmove`. -/
def kmemmove (memory : ByteMemory) (dst src n : Nat) : Nat × ByteMemory :=
  if dst = 0 ∨ src = 0 then (0, memory)
  else if n = 0 ∨ dst = src then (dst, memory)
  else if dst < src then (dst, copyUp dst src n memory)
  else (dst, copyDown dst src n memory)

section Copies

variable {memory : ByteMemory} {dst src n : Nat}

theorem moved_of_still (still : n = 0 ∨ dst = src) : moved dst src n memory = memory := by
  funext address
  rw [moved]
  split
  · next inside =>
    congr 1
    omega
  · rfl

theorem kmemmove_moves (there : dst ≠ 0) (from_there : src ≠ 0) :
    kmemmove memory dst src n = (dst, moved dst src n memory) := by
  rw [kmemmove, if_neg (by simp [there, from_there])]
  split
  · next still => rw [moved_of_still still]
  split
  · next below => rw [copyUp_of_le (Nat.le_of_lt below)]
  · next above => rw [copyDown_of_le (Nat.le_of_not_lt above)]

theorem kmemcpy_moves_iff (there : dst ≠ 0) (from_there : src ≠ 0) :
    kmemcpy memory dst src n = (dst, moved dst src n memory) ↔
      (src < dst → ∀ i < n, memory (src + i % (dst - src)) = memory (src + i)) := by
  rw [kmemcpy, if_neg (by simp [there, from_there])]
  split
  · next still =>
    rw [moved_of_still still]
    exact iff_of_true rfl fun above i below => by omega
  rw [Prod.mk.injEq, and_iff_right rfl]
  by_cases above : src < dst
  · rw [imp_iff_right above, funext_iff]
    constructor
    · intro same i below
      have here := same (dst + i)
      rwa [copyUp_of_lt above, moved, if_pos (by omega), if_pos (by omega),
        Nat.add_sub_cancel_left] at here
    · intro repeated address
      rw [copyUp_of_lt above, moved]
      split
      · next inside => exact repeated (address - dst) (by omega)
      · rfl
  · rw [copyUp_of_le (Nat.le_of_not_lt above)]
    exact iff_of_true rfl fun above' => absurd above' above

/-- Whatever the places are, `kmemmove` leaves at one what was at the other and changes nothing
else.  `kmemcpy` does so as well if and only if the source is not below the destination or repeats
itself with their distance, as it does when it ends before the destination. -/
theorem copies_iff (memory : ByteMemory) (there : dst ≠ 0) (from_there : src ≠ 0) (n : Nat) :
    kmemmove memory dst src n = (dst, moved dst src n memory) ∧
      (kmemcpy memory dst src n = (dst, moved dst src n memory) ↔
        (src < dst → ∀ i < n, memory (src + i % (dst - src)) = memory (src + i))) :=
  ⟨kmemmove_moves there from_there, kmemcpy_moves_iff there from_there⟩

/-- A memory with one letter in front of others. -/
def letters : ByteMemory := fun address => if address = 4 then 65 else 66

/-- Two bytes are copied to the place of the second one. -/
theorem copies_iff_next :
    kmemmove letters 5 4 2 = (5, moved 5 4 2 letters) ∧
      (kmemcpy letters 5 4 2 = (5, moved 5 4 2 letters) ↔
        (4 < 5 → ∀ i < 2, letters (4 + i % (5 - 4)) = letters (4 + i))) :=
  copies_iff letters (by decide) (by decide) 2

end Copies

end Charis.Memory
