import Charis.Lib.ByteMemory

/-!
# Blocks packed one after the other

Blocks of any lengths are stored without gaps.  Each block starts where the one before it
ends, so that no two of them overlap and each can be loaded again from its own place.
-/

namespace Charis.Lib

variable {α : Type*} {blocks : List (List α)} {block : List α} {address place : Nat}

/-- Where the blocks start that are packed from `address` on. -/
def placements : Nat → List (List α) → List Nat
  | _, [] => []
  | address, block :: blocks => address :: placements (address + block.length) blocks

@[simp] theorem length_placements (address : Nat) (blocks : List (List α)) :
    (placements address blocks).length = blocks.length := by
  induction blocks generalizing address with
  | nil => rfl
  | cons block blocks ih => simp only [placements, List.length_cons, ih]

/-- More blocks are packed behind the others. -/
theorem placements_append (address : Nat) (first second : List (List α)) :
    placements address (first ++ second) =
      placements address first ++ placements (address + first.flatten.length) second := by
  induction first generalizing address with
  | nil => simp [placements]
  | cons block first ih =>
      simp only [List.cons_append, placements, ih, List.flatten_cons, List.length_append,
        Nat.add_assoc]

/-- Every block lies in the range that is packed. -/
theorem placed_inside (member : (place, block) ∈ (placements address blocks).zip blocks) :
    address ≤ place ∧ place + block.length ≤ address + blocks.flatten.length := by
  induction blocks generalizing address with
  | nil => simp at member
  | cons first blocks ih =>
  simp only [placements, List.zip_cons_cons, List.mem_cons, Prod.mk.injEq] at member
  simp only [List.flatten_cons, List.length_append]
  rcases member with ⟨rfl, rfl⟩ | later
  · omega
  · have inside := ih later
    omega

/-- No block starts behind the range that is packed. -/
theorem placement_le (member : place ∈ placements address blocks) :
    place ≤ address + blocks.flatten.length := by
  induction blocks generalizing address with
  | nil => cases member
  | cons first blocks ih =>
      rw [List.flatten_cons, List.length_append]
      rcases List.mem_cons.mp member with rfl | later
      · exact Nat.le_add_right _ _
      · exact (ih later).trans (Nat.le_of_eq (Nat.add_assoc _ _ _))

/-- Blocks that are packed do not overlap. -/
theorem placed_apart (address : Nat) (blocks : List (List α)) :
    ((placements address blocks).zip blocks).Pairwise fun early late =>
      early.1 + early.2.length ≤ late.1 := by
  induction blocks generalizing address with
  | nil => exact List.Pairwise.nil
  | cons block blocks ih =>
      apply List.Pairwise.cons
      · intro late member
        exact (placed_inside member).1
      · exact ih _

theorem loadBytes_placed {memory : ByteMemory} {blocks : List (List UInt8)}
    {block : List UInt8}
    (stored : memory.loadBytes address blocks.flatten.length = blocks.flatten)
    (member : (place, block) ∈ (placements address blocks).zip blocks) :
    memory.loadBytes place block.length = block := by
  induction blocks generalizing address with
  | nil => simp at member
  | cons first blocks ih =>
  rw [List.flatten_cons, List.length_append, ByteMemory.loadBytes_append] at stored
  obtain ⟨here, rest⟩ := List.append_inj stored (ByteMemory.length_loadBytes _ _ _)
  simp only [placements, List.zip_cons_cons, List.mem_cons, Prod.mk.injEq] at member
  rcases member with ⟨rfl, rfl⟩ | later
  · exact here
  · exact ih rest later

end Charis.Lib
