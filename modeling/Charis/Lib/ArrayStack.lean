import Mathlib.Data.List.Basic
import Mathlib.Logic.Function.Basic

/-!
# Stacks in arrays

A stack that grows downwards in an array holds the values from its pointer up to the end of the
array.  What is below the pointer does not belong to it.
-/

namespace Charis.Lib.ArrayStack

variable {α : Type*} {slots slots' : Nat → α} {capacity pointer : Nat}

/-- The values on the stack, the last one that was pushed first. -/
def contents (slots : Nat → α) (capacity pointer : Nat) : List α :=
  (List.range' pointer (capacity - pointer)).map slots

@[simp] theorem length_contents (slots : Nat → α) (capacity pointer : Nat) :
    (contents slots capacity pointer).length = capacity - pointer := by
  rw [contents, List.length_map, List.length_range']

@[simp] theorem contents_empty (slots : Nat → α) (capacity : Nat) :
    contents slots capacity capacity = [] := by
  rw [contents, Nat.sub_self]
  rfl

/-- The value at the pointer is on top. -/
theorem contents_pop (filled : pointer < capacity) :
    contents slots capacity pointer = slots pointer :: contents slots capacity (pointer + 1) := by
  have more : capacity - pointer = capacity - (pointer + 1) + 1 := by omega
  rw [contents, contents, more, List.range'_succ, List.map_cons]

/-- Storing below the pointer does not change the stack. -/
theorem contents_congr (same : ∀ slot, pointer ≤ slot → slots' slot = slots slot) :
    contents slots' capacity pointer = contents slots capacity pointer := by
  apply List.map_congr_left
  intro slot mem
  exact same slot (List.mem_range'_1.mp mem).1

/-- Storing right below the pointer and moving it there is a push. -/
theorem contents_push (room : 0 < pointer) (inside : pointer ≤ capacity) (value : α) :
    contents (Function.update slots (pointer - 1) value) capacity (pointer - 1) =
      value :: contents slots capacity pointer := by
  rw [contents_pop (by omega), Function.update_self, Nat.sub_add_cancel room]
  congr 1
  apply contents_congr
  intro slot above
  exact Function.update_of_ne (by omega) _ _

end Charis.Lib.ArrayStack
