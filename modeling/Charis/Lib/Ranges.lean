import Mathlib

/-!
# Ranges of numbers modulo a number

A range of numbers is given by its first number and its length.  Whether reducing the numbers
makes two of them equal is decided by the distances between the first numbers.
-/

namespace Charis.Lib

variable {modulus first length first' length' : Nat}

/-- Two ranges have no number in common when they are reduced. -/
def ApartMod (modulus first length first' length' : Nat) : Prop :=
  (length : Int) ≤ ((first' : Int) - first) % modulus ∧
    (length' : Int) ≤ ((first : Int) - first') % modulus

instance : Decidable (ApartMod modulus first length first' length') :=
  inferInstanceAs (Decidable (_ ∧ _))

/-- A distance does not get longer when it is reduced. -/
theorem ApartMod.distance_le {later : Nat} (same : (first + later) % modulus = first' % modulus) :
    ((first' : Int) - first) % modulus ≤ later := by
  have distance : ((first' : Int) - first) % modulus = (later : Int) % modulus := by
    have cast : ((first : Int) + later) % modulus = (first' : Int) % modulus := by
      exact_mod_cast same
    rw [Int.sub_emod, ← cast, ← Int.sub_emod, add_sub_cancel_left]
  rw [distance]
  exact_mod_cast Nat.mod_le later modulus

/-- The reduced distance leads from one number to the other. -/
theorem add_distance (positive : 0 < modulus) :
    (first + (((first' : Int) - first) % modulus).toNat) % modulus = first' % modulus := by
  have least : 0 ≤ ((first' : Int) - first) % modulus :=
    Int.emod_nonneg _ (by exact_mod_cast positive.ne')
  have cast : ((first : Int) + ((first' : Int) - first) % modulus) % modulus =
      (first' : Int) % modulus := by
    rw [Int.add_emod_emod, add_sub_cancel]
  rw [← Int.toNat_of_nonneg least] at cast
  exact_mod_cast cast

theorem apartMod_iff (positive : 0 < modulus) (some : 0 < length) (some' : 0 < length') :
    ApartMod modulus first length first' length' ↔
      ∀ number ∈ Set.Ico first (first + length), ∀ number' ∈ Set.Ico first' (first' + length'),
        number % modulus ≠ number' % modulus := by
  constructor
  · rintro ⟨before, after⟩ number ⟨least, most⟩ number' ⟨least', most'⟩ same
    obtain ⟨i, rfl⟩ := Nat.exists_eq_add_of_le least
    obtain ⟨j, rfl⟩ := Nat.exists_eq_add_of_le least'
    rcases le_total j i with later | later
    · obtain ⟨between, rfl⟩ := Nat.exists_eq_add_of_le' later
      rw [← Nat.add_assoc] at same
      have near := ApartMod.distance_le (Nat.ModEq.add_right_cancel' j same)
      omega
    · obtain ⟨between, rfl⟩ := Nat.exists_eq_add_of_le' later
      rw [← Nat.add_assoc] at same
      have near := ApartMod.distance_le (Nat.ModEq.add_right_cancel' i same.symm)
      omega
  intro apart
  have least : 0 ≤ ((first' : Int) - first) % modulus :=
    Int.emod_nonneg _ (by exact_mod_cast positive.ne')
  have least' : 0 ≤ ((first : Int) - first') % modulus :=
    Int.emod_nonneg _ (by exact_mod_cast positive.ne')
  constructor
  · by_contra near
    apply apart (first + (((first' : Int) - first) % modulus).toNat) ⟨by omega, by omega⟩
      first' ⟨le_rfl, by omega⟩
    exact add_distance positive
  · by_contra near
    apply apart first ⟨le_rfl, by omega⟩
      (first' + (((first : Int) - first') % modulus).toNat) ⟨by omega, by omega⟩
    exact (add_distance positive).symm

/-- The numbers of one range stay different. -/
theorem injOn_mod_iff (positive : 0 < modulus) :
    Set.InjOn (· % modulus) (Set.Ico first (first + length)) ↔ length ≤ modulus := by
  constructor
  · intro injective
    by_contra long
    have same := @injective first ⟨le_rfl, by omega⟩ (first + modulus) ⟨by omega, by omega⟩
      (by simp)
    omega
  · intro short number range number' range' same
    obtain ⟨i, rfl⟩ := Nat.exists_eq_add_of_le range.1
    obtain ⟨j, rfl⟩ := Nat.exists_eq_add_of_le range'.1
    have inside := range.2
    have inside' := range'.2
    have equal : i % modulus = j % modulus := Nat.ModEq.add_left_cancel' first same
    rw [Nat.mod_eq_of_lt (by omega), Nat.mod_eq_of_lt (by omega)] at equal
    rw [equal]

end Charis.Lib
