import Mathlib

/-!
# Ring buffers

A ring buffer keeps a queue in the slots from its tail on, modulo the number of slots.
Storing at the end of the queue appends to it, and moving the tail drops its first element.
-/

namespace Charis.Lib.Ring

variable {α : Type*} {slots : Nat → α} {capacity tail count : Nat}

/-- The queue that a ring buffer holds. -/
def contents (slots : Nat → α) (capacity tail count : Nat) : List α :=
  (List.range count).map fun offset => slots ((tail + offset) % capacity)

@[simp] theorem length_contents : (contents slots capacity tail count).length = count := by
  simp [contents]

@[simp] theorem contents_zero : contents slots capacity tail 0 = [] := rfl

/-- Slots at different offsets below the capacity are different. -/
theorem slot_ne {offset : Nat} (inside : offset < count) (fits : count < capacity) :
    (tail + offset) % capacity ≠ (tail + count) % capacity := by
  intro same
  have congruent : offset ≡ count [MOD capacity] := Nat.ModEq.add_left_cancel' tail same
  have equal := congruent.eq_of_lt_of_lt (inside.trans fits) fits
  omega

/-- Storing after the last element. -/
theorem contents_push (fits : count < capacity) (value : α) :
    contents (Function.update slots ((tail + count) % capacity) value) capacity tail (count + 1) =
      contents slots capacity tail count ++ [value] := by
  simp only [contents, List.range_succ, List.map_append, List.map_cons, List.map_nil,
    Function.update_self]
  congr 1
  apply List.map_congr_left
  intro offset inside
  rw [List.mem_range] at inside
  exact Function.update_of_ne (slot_ne inside fits) _ _

/-- Moving the tail over the first element. -/
theorem contents_pop (filled : 0 < count) :
    contents slots capacity tail count =
      slots (tail % capacity) :: contents slots capacity ((tail + 1) % capacity) (count - 1) := by
  obtain ⟨rest, rfl⟩ := Nat.exists_eq_add_of_lt filled
  simp only [contents, zero_add, Nat.add_sub_cancel, List.range_succ_eq_map, List.map_cons,
    List.map_map, add_zero]
  congr 1
  apply List.map_congr_left
  intro offset _
  simp only [Function.comp_apply, Nat.mod_add_mod]
  congr 2
  omega

/-- Storing several values after the last element, one after the other. -/
theorem contents_append {position : Nat} (values : Nat → α) (stored : Nat)
    (fits : count + stored ≤ capacity) (place : position = (tail + count) % capacity) :
    contents
        ((List.range stored).foldl
          (fun slots index => Function.update slots ((position + index) % capacity) (values index))
          slots)
        capacity tail (count + stored) =
      contents slots capacity tail count ++ (List.range stored).map values := by
  induction stored with
  | zero => simp
  | succ stored ih =>
  have next : (position + stored) % capacity = (tail + (count + stored)) % capacity := by
    rw [place, Nat.mod_add_mod, Nat.add_assoc]
  rw [List.range_succ, List.foldl_append, List.foldl_cons, List.foldl_nil, next,
    ← Nat.add_assoc count, contents_push (by omega), ih (by omega), List.map_append,
    List.append_assoc]
  rfl

/-- Moving the tail over several elements. -/
theorem contents_drop {removed : Nat} (filled : removed ≤ count) :
    contents slots capacity tail count =
      (List.range removed).map (fun index => slots ((tail + index) % capacity)) ++
        contents slots capacity ((tail + removed) % capacity) (count - removed) := by
  obtain ⟨rest, rfl⟩ := Nat.exists_eq_add_of_le filled
  rw [Nat.add_sub_cancel_left, contents, contents, List.range_add, List.map_append, List.map_map]
  congr 1
  apply List.map_congr_left
  intro index _
  rw [Function.comp_apply, Nat.mod_add_mod, Nat.add_assoc]

end Charis.Lib.Ring
