import Mathlib

/-!
# Copies within a memory

A loop copies cells one after the other, upwards or downwards, and may read cells that it has
written itself.
-/

namespace Charis.Lib

variable {α : Type*} {dst src : Nat}

/-- Copy cells, the first one first. -/
def copyUp (dst src : Nat) : (count : Nat) → (Nat → α) → Nat → α
  | 0, cells => cells
  | count + 1, cells =>
      let copied := copyUp dst src count cells
      Function.update copied (dst + count) (copied (src + count))

/-- Copy cells, the last one first. -/
def copyDown (dst src : Nat) : (count : Nat) → (Nat → α) → Nat → α
  | 0, cells => cells
  | count + 1, cells =>
      copyDown dst src count (Function.update cells (dst + count) (cells (src + count)))

/-- The cells of one place as they were, also at another place. -/
def moved (dst src count : Nat) (cells : Nat → α) : Nat → α := fun address =>
  if dst ≤ address ∧ address < dst + count then cells (src + (address - dst)) else cells address

/-- A copy to lower addresses reads no cell that it has written. -/
theorem copyUp_of_le (below : dst ≤ src) (count : Nat) (cells : Nat → α) :
    copyUp dst src count cells = moved dst src count cells := by
  induction count with
  | zero =>
      funext address
      rw [copyUp, moved, if_neg (by omega)]
  | succ count ih =>
  funext address
  rw [copyUp, ih]
  by_cases here : address = dst + count
  · rw [here, Function.update_self, moved, moved, if_neg (by omega), if_pos (by omega),
      Nat.add_sub_cancel_left]
  · rw [Function.update_of_ne here, moved, moved]
    congr 1
    rw [eq_iff_iff]
    omega

/-- A copy to higher addresses repeats the cells between the two places. -/
theorem copyUp_of_lt (above : src < dst) (count : Nat) (cells : Nat → α) (address : Nat) :
    copyUp dst src count cells address =
      if dst ≤ address ∧ address < dst + count then
        cells (src + (address - dst) % (dst - src))
      else cells address := by
  induction count generalizing address with
  | zero => rw [copyUp, if_neg (by omega)]
  | succ count ih =>
  rw [copyUp]
  by_cases here : address = dst + count
  · have last : dst ≤ dst + count ∧ dst + count < dst + (count + 1) := by omega
    rw [here, Function.update_self, ih, if_pos last, Nat.add_sub_cancel_left]
    split
    · next written =>
      rw [Nat.mod_eq_sub_mod (show count ≥ dst - src by omega)]
      congr 3
      omega
    · rw [Nat.mod_eq_of_lt (by omega)]
  · rw [Function.update_of_ne here, ih]
    congr 1
    rw [eq_iff_iff]
    omega

/-- A copy from the last cell on to higher addresses reads no cell that it has written. -/
theorem copyDown_of_le (above : src ≤ dst) (count : Nat) (cells : Nat → α) :
    copyDown dst src count cells = moved dst src count cells := by
  induction count generalizing cells with
  | zero =>
      funext address
      rw [copyDown, moved, if_neg (by omega)]
  | succ count ih =>
  funext address
  rw [copyDown, ih, moved, moved]
  by_cases inside : dst ≤ address ∧ address < dst + count
  · rw [if_pos inside, if_pos (by omega), Function.update_of_ne (by omega)]
  · rw [if_neg inside]
    by_cases here : address = dst + count
    · rw [here, Function.update_self, if_pos (by omega), Nat.add_sub_cancel_left]
    · rw [Function.update_of_ne here, if_neg (by omega)]

end Charis.Lib
