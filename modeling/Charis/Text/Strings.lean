import Charis.Lib.Access

/-!
# Comparing strings

`kstrcmp` goes through two strings as long as they agree.  The second one is given by its
characters, which are followed by a zero.
-/

namespace Charis.Text

open Charis.Lib

/-- `kstrcmp` of a string in memory and one that is given by its characters. -/
def kstrcmp (a : ByteMemory) (address : Nat) : (b : List UInt8) → Int
  | [] => (a address).toNat
  | c :: b =>
      if a address ≠ 0 ∧ c ≠ 0 ∧ a address = c then kstrcmp a (address + 1) b
      else (a address).toNat - c.toNat

/-- Strings without zero bytes are equal exactly when the comparison finds no difference. -/
theorem kstrcmp_eq_zero {bytes : ByteMemory} {address : Nat} {text : List UInt8}
    (spells : Spells bytes address text) {b : List UInt8} (plain : ∀ c ∈ b, c ≠ 0) :
    kstrcmp bytes address b = 0 ↔ b = text := by
  induction b generalizing address text with
  | nil =>
      rw [kstrcmp]
      cases text with
      | nil =>
          have ended : bytes address = 0 := spells
          simp [ended]
      | cons c text =>
      have filled : c.toNat ≠ 0 := fun zero => spells.2.1 (UInt8.toNat_inj.mp zero)
      rw [spells.1]
      constructor
      · intro zero
        exact absurd (Int.natCast_eq_zero.mp zero) filled
      · nofun
  | cons d b ih =>
  rw [kstrcmp]
  have solid := plain d List.mem_cons_self
  cases text with
  | nil =>
      have ended : bytes address = 0 := spells
      have filled : d.toNat ≠ 0 := fun zero => solid (UInt8.toNat_inj.mp zero)
      rw [ended, if_neg (fun three => three.1 rfl)]
      constructor
      · intro zero
        rw [UInt8.toNat_zero] at zero
        omega
      · nofun
  | cons c text =>
  rw [spells.1]
  by_cases same : c = d
  · rw [if_pos ⟨spells.2.1, solid, same⟩,
      ih spells.2.2 (fun e member => plain e (List.mem_cons_of_mem _ member)), same,
      List.cons_eq_cons]
    exact ⟨fun equal => ⟨rfl, equal⟩, And.right⟩
  · rw [if_neg (fun three => same three.2.2)]
    constructor
    · intro zero
      exact absurd (UInt8.toNat_inj.mp (by omega)) same
    · intro equal
      exact absurd (List.cons_eq_cons.mp equal).1.symm same

end Charis.Text
