import Mathlib

/-!
# Writes through whole blocks

A sequence lies on a device that takes whole blocks.  A block that a write enters at its start is
not read first: behind the last element that is written it is filled up.  Elements that are
overwritten in this way were to be kept.
-/

namespace Charis.Lib

variable {α : Type*} {width start stop index : Nat} {fill : α}
  {before middle after : Nat → α} {content rest old : List α}

/-- An index behind a write is filled up: its block is the last one, which was entered at its
start. -/
def FilledUp (width start stop index : Nat) : Prop :=
  stop ≤ index ∧ index / width = (stop - 1) / width ∧
    (start / width = (stop - 1) / width → start % width = 0)

/-- What a write makes of a sequence. -/
structure BlockWrite (width : Nat) (fill : α) (start : Nat) (content : List α)
    (before after : Nat → α) : Prop where
  written : ∀ index (below : index < content.length), after (start + index) = content[index]
  filled : ∀ index, FilledUp width start (start + content.length) index → after index = fill
  kept : ∀ index, index < start ∨ start + content.length ≤ index →
    ¬FilledUp width start (start + content.length) index → after index = before index

/-- The start of a block is behind the blocks before it. -/
theorem pred_div_lt (positive : 0 < width) (some : 0 < stop) (boundary : stop % width = 0) :
    (stop - 1) / width < stop / width := by
  rw [Nat.div_lt_iff_lt_mul positive, Nat.div_mul_cancel (Nat.dvd_of_mod_eq_zero boundary)]
  exact Nat.sub_one_lt_of_lt some

/-- Nothing is filled up behind a write that ends with a block. -/
theorem not_filledUp (positive : 0 < width) (some : 0 < stop) (boundary : stop % width = 0) :
    ¬FilledUp width start stop index := by
  rintro ⟨behind, same, -⟩
  have later : stop / width ≤ index / width := Nat.div_le_div_right behind
  have earlier := pred_div_lt positive some boundary
  omega

/-- What is filled up only depends on the last block. -/
theorem filledUp_congr (positive : 0 < width) {border : Nat} (boundary : border % width = 0)
    (first : start < border) (second : border < stop) :
    FilledUp width start stop index ↔ FilledUp width border stop index := by
  have entered : start / width < (stop - 1) / width :=
    calc start / width ≤ (border - 1) / width := Nat.div_le_div_right (by omega)
      _ < border / width := pred_div_lt positive (by omega) boundary
      _ ≤ (stop - 1) / width := Nat.div_le_div_right (by omega)
  constructor
  · rintro ⟨behind, last, -⟩
    exact ⟨behind, last, fun _ => boundary⟩
  · rintro ⟨behind, last, -⟩
    exact ⟨behind, last, fun same => absurd same entered.ne⟩

namespace BlockWrite

/-- A write up to the end of a block is continued by one from there on. -/
theorem append (positive : 0 < width)
    (first : BlockWrite width fill start content before middle)
    (boundary : (start + content.length) % width = 0) (some : content ≠ [])
    (second : BlockWrite width fill (start + content.length) rest middle after) (more : rest ≠ []) :
    BlockWrite width fill start (content ++ rest) before after := by
  have length := List.length_pos_of_ne_nil some
  have length' := List.length_pos_of_ne_nil more
  have unfilled : ∀ index, ¬FilledUp width start (start + content.length) index :=
    fun index => not_filledUp positive (by omega) boundary
  have same : ∀ index, FilledUp width start (start + content.length + rest.length) index ↔
      FilledUp width (start + content.length) (start + content.length + rest.length) index :=
    fun index => filledUp_congr positive boundary (by omega) (by omega)
  constructor
  · intro index below
    rw [List.length_append] at below
    by_cases early : index < content.length
    · rw [List.getElem_append_left early, second.kept _ (by omega), first.written index early]
      rintro ⟨behind, -⟩
      omega
    · obtain ⟨later, rfl⟩ := Nat.exists_eq_add_of_le (Nat.not_lt.mp early)
      rw [List.getElem_append_right (by omega), ← Nat.add_assoc, second.written later (by omega)]
      simp only [Nat.add_sub_cancel_left]
  · intro index filled
    rw [List.length_append, ← Nat.add_assoc, same] at filled
    exact second.filled index filled
  · intro index outside unfilled'
    rw [List.length_append, ← Nat.add_assoc] at outside
    rw [List.length_append, ← Nat.add_assoc, same] at unfilled'
    rw [second.kept index (by omega) unfilled', first.kept index (by omega) (unfilled index)]

/-- The first elements of a sequence after a write are those of the old ones with the content
in their place exactly if what is filled up was so before. -/
theorem map_range_iff (write : BlockWrite width fill start content before after) {size : Nat}
    (inside : start ≤ size) :
    (List.range (max size (start + content.length))).map after =
        ((List.range size).map before).take start ++ content ++
          ((List.range size).map before).drop (start + content.length) ↔
      ∀ index < size, FilledUp width start (start + content.length) index →
        before index = fill := by
  have length : (((List.range size).map before).take start ++ content).length =
      start + content.length := by
    simp [inside]
  constructor
  · intro same index below filled
    have behind := filled.1
    have here : ((List.range (max size (start + content.length))).map after)[index]? = _ :=
      congrArg (·[index]?) same
    rw [List.getElem?_append_right (length ▸ behind), length, List.getElem?_drop,
      Nat.add_sub_cancel' behind, List.getElem?_map, List.getElem?_map,
      List.getElem?_range (by omega), List.getElem?_range below, Option.map_some,
      Option.map_some, Option.some_inj, write.filled index filled] at here
    exact here.symm
  intro filled
  apply List.ext_getElem?
  intro index
  by_cases below : index < max size (start + content.length)
  · rw [List.getElem?_map, List.getElem?_range below, Option.map_some]
    by_cases behind : start + content.length ≤ index
    · rw [List.getElem?_append_right (length ▸ behind), length, List.getElem?_drop,
        Nat.add_sub_cancel' behind, List.getElem?_map, List.getElem?_range (by omega),
        Option.map_some, Option.some_inj]
      by_cases up : FilledUp width start (start + content.length) index
      · rw [write.filled index up, filled index (by omega) up]
      · exact write.kept index (.inr behind) up
    rw [List.getElem?_append_left (length ▸ Nat.lt_of_not_le behind)]
    have first : (((List.range size).map before).take start).length = start := by
      simp [inside]
    by_cases early : index < start
    · have early' : index < (((List.range size).map before).take start).length := by
        rwa [first]
      rw [List.getElem?_append_left early', List.getElem?_take_of_lt early,
        List.getElem?_map, List.getElem?_range (by omega), Option.map_some, Option.some_inj]
      apply write.kept index (.inl early)
      rintro ⟨later, -⟩
      omega
    · obtain ⟨offset, rfl⟩ := Nat.exists_eq_add_of_le (Nat.not_lt.mp early)
      rw [List.getElem?_append_right (by omega), first, Nat.add_sub_cancel_left,
        List.getElem?_eq_getElem (by omega), Option.some_inj]
      exact write.written offset (by omega)
  · rw [List.getElem?_eq_none_iff.mpr, List.getElem?_eq_none_iff.mpr]
    · rw [List.length_append, length, List.length_drop, List.length_map, List.length_range]
      omega
    · rw [List.length_map, List.length_range]
      omega

end BlockWrite

/-- A list after a content was written into it from a position on. -/
structure Overwrites (width : Nat) (fill : α) (start : Nat) (content old new : List α) : Prop where
  length : new.length = max old.length (start + content.length)
  written : ∀ index (below : index < content.length), new[start + index]? = content[index]
  filled : ∀ index < new.length, FilledUp width start (start + content.length) index →
    new[index]? = some fill
  kept : ∀ index, index < start ∨ start + content.length ≤ index →
    ¬FilledUp width start (start + content.length) index → new[index]? = old[index]?

theorem BlockWrite.overwrites (write : BlockWrite width fill start content before after)
    (some : content ≠ []) {size : Nat} (inside : start ≤ size) :
    Overwrites width fill start content ((List.range size).map before)
      ((List.range (max size (start + content.length))).map after) := by
  have length := List.length_pos_of_ne_nil some
  have inner {index : Nat} (below : index < max size (start + content.length)) :
      ((List.range (max size (start + content.length))).map after)[index]? =
        Option.some (after index) := by
    rw [List.getElem?_map, List.getElem?_range below, Option.map_some]
  constructor
  · rw [List.length_map, List.length_range, List.length_map, List.length_range]
  · intro index below
    rw [inner (by omega), write.written index below]
  · intro index below filled
    rw [List.length_map, List.length_range] at below
    rw [inner below, write.filled index filled]
  · intro index outside unfilled
    by_cases below : index < size
    · rw [inner (by omega), List.getElem?_map, List.getElem?_range below, Option.map_some,
        write.kept index outside unfilled]
    · rw [List.getElem?_eq_none_iff.mpr (by simp; omega),
        List.getElem?_eq_none_iff.mpr (by simp; omega)]

end Charis.Lib
