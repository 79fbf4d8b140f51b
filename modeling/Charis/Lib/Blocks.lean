import Mathlib

/-!
# Lists made of blocks

A list that is put together from blocks of one length is addressed by the number of a block
and a position inside it.
-/

namespace Charis.Lib

variable {α β : Type*} {blocks : List α} {block : α} {image : α → List β} {width index : Nat}

theorem length_blocks (uniform : ∀ block ∈ blocks, (image block).length = width) :
    (blocks.flatMap image).length = blocks.length * width := by
  induction blocks with
  | nil => simp
  | cons block blocks ih =>
      have rest := ih fun other member => uniform other (List.mem_cons_of_mem _ member)
      rw [List.flatMap_cons, List.length_append, rest, uniform block (by simp),
        List.length_cons, Nat.succ_mul, Nat.add_comm]

theorem drop_blocks (uniform : ∀ block ∈ blocks, (image block).length = width) :
    (blocks.flatMap image).drop (index * width) = (blocks.drop index).flatMap image := by
  induction blocks generalizing index with
  | nil => simp
  | cons block blocks ih =>
  cases index with
  | zero => simp
  | succ index =>
  have rest := @ih index fun other member =>
    uniform other (List.mem_cons_of_mem _ member)
  have first := uniform block (by simp)
  rw [List.flatMap_cons, List.drop_succ_cons, ← rest, List.drop_append, first,
    List.drop_of_length_le (by rw [first]; exact Nat.le_mul_of_pos_left _ (by simp)),
    List.nil_append, Nat.succ_mul, Nat.add_sub_cancel]

theorem part_of_blocks (uniform : ∀ block ∈ blocks, (image block).length = width)
    (there : blocks[index]? = some block) {first length : Nat} (inside : first + length ≤ width) :
    ((blocks.flatMap image).drop (index * width + first)).take length =
      ((image block).drop first).take length := by
  obtain ⟨below, same⟩ := List.getElem?_eq_some_iff.mp there
  have size := uniform block (List.mem_of_getElem? there)
  rw [← List.drop_drop, drop_blocks uniform, List.drop_eq_getElem_cons below, same,
    List.flatMap_cons, List.drop_append_of_le_length (by omega),
    List.take_append_of_le_length (by rw [List.length_drop]; omega)]

theorem getElem?_blocks (uniform : ∀ block ∈ blocks, (image block).length = width)
    (there : blocks[index]? = some block) {offset : Nat} (inside : offset < width) :
    (blocks.flatMap image)[index * width + offset]? = (image block)[offset]? := by
  have part := congrArg List.head? (@part_of_blocks _ _ _ _ _ _ _ uniform there offset 1 inside)
  simpa only [List.head?_take, List.head?_drop, Nat.one_ne_zero, if_false] using part

end Charis.Lib
