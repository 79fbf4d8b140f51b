import Mathlib

/-!
# Rectangles of pixels

Pixels lie in memory row after row.  A loop over the rows of a rectangle, and over the columns of
each row, changes the pixels of the rectangle and no others.  What uses a pixel outside the memory
fails.
-/

namespace Charis.Lib

variable {α : Type}

/-- A pixel in memory of a given size. -/
def readPixel (size : Int) (cells : Int → α) (i : Int) : Option α :=
  if 0 ≤ i ∧ i < size then some (cells i) else none

def writePixel (size : Int) (cells : Int → α) (i : Int) (a : α) : Option (Int → α) :=
  if 0 ≤ i ∧ i < size then some (Function.update cells i a) else none

/-- Change one pixel. -/
def changePixel (size : Int) (f : α → Option α) (cells : Int → α) (i : Int) :
    Option (Int → α) := do
  let old ← readPixel size cells i
  let new ← f old
  writePixel size cells i new

/-- Change the pixels of a row, from its first one on. -/
def changeRow (size : Int) (f : Nat → α → Option α) (cells : Int → α) (first : Int)
    (width : Nat) : Option (Int → α) :=
  (List.range width).foldlM
    (fun cells col => changePixel size (f col) cells (first + col)) cells

/-- Change the pixels of a rectangle. -/
def changeRect (size : Int) (f : Nat → Nat → α → Option α) (cells : Int → α)
    (stride x y : Int) (width height : Nat) : Option (Int → α) :=
  (List.range height).foldlM
    (fun cells row => changeRow size (f row) cells ((y + row) * stride + x) width) cells

variable {size stride x y px py i : Int} {width height : Nat}

theorem readPixel_of_inside (cells : Int → α) (first : 0 ≤ i) (last : i < size) :
    readPixel size cells i = some (cells i) :=
  if_pos ⟨first, last⟩

theorem changePixel_of_inside {cells : Int → α} {f : α → Option α} {new : α} (first : 0 ≤ i)
    (last : i < size) (changed : f (cells i) = some new) :
    changePixel size f cells i = some (Function.update cells i new) := by
  simp only [changePixel, readPixel_of_inside cells first last, Option.bind_eq_bind,
    Option.bind_some, changed]
  exact if_pos ⟨first, last⟩

theorem changeRow_of_inside (cells : Int → α) {f : Nat → α → Option α} {g : Nat → α → α}
    {first : Int}
    (defined : ∀ col < width, ∀ a, f col a = some (g col a)) (start : 0 ≤ first)
    (room : first + width ≤ size) :
    ∃ cells', changeRow size f cells first width = some cells' ∧
      ∀ i, cells' i =
        if first ≤ i ∧ i < first + width then g (i - first).toNat (cells i) else cells i := by
  induction width with
  | zero =>
      refine ⟨cells, rfl, ?_⟩
      intro i
      rw [if_neg (by omega)]
  | succ width ih =>
  obtain ⟨cells₁, earlier, values⟩ :=
    ih (fun col less => defined col (Nat.lt_succ_of_lt less)) (by omega)
  have inside : first + width < size := by omega
  have changed := defined width (Nat.lt_succ_self width) (cells₁ (first + width))
  refine ⟨Function.update cells₁ (first + width) (g width (cells₁ (first + width))), ?_, ?_⟩
  · rw [changeRow, List.range_succ, List.foldlM_append]
    rw [changeRow] at earlier
    simp only [earlier, Option.bind_eq_bind, Option.bind_some, List.foldlM_cons,
      List.foldlM_nil]
    rw [changePixel_of_inside (by omega) inside changed]
    rfl
  · intro i
    by_cases last : i = first + width
    · subst last
      rw [Function.update_self, values, if_neg (by omega), if_pos (by omega)]
      congr 1
      omega
    · rw [Function.update_of_ne last, values]
      by_cases before : first ≤ i ∧ i < first + width
      · rw [if_pos before, if_pos (by omega)]
      · rw [if_neg before, if_neg (by omega)]

theorem changeRect_of_no_columns (size : Int) (f : Nat → Nat → α → Option α) (cells : Int → α)
    (stride x y : Int) (height : Nat) :
    changeRect size f cells stride x y 0 height = some cells := by
  rw [changeRect]
  induction height with
  | zero => rfl
  | succ height ih =>
      rw [List.range_succ, List.foldlM_append, ih]
      rfl

theorem changeRect_of_no_rows (size : Int) (f : Nat → Nat → α → Option α) (cells : Int → α)
    (stride x y : Int) (width : Nat) :
    changeRect size f cells stride x y width 0 = some cells := rfl

/-- A change that is not defined fails at the first pixel. -/
theorem changeRect_of_undefined (size : Int) (cells : Int → α) (stride x y : Int)
    (columns : 0 < width) (rows : 0 < height) :
    changeRect size (fun _ _ _ => none) cells stride x y width height = none := by
  obtain ⟨width, rfl⟩ := Nat.exists_eq_succ_of_ne_zero columns.ne'
  obtain ⟨height, rfl⟩ := Nat.exists_eq_succ_of_ne_zero rows.ne'
  have pixel (i : Int) : changePixel size (fun _ => none) cells i = none := by
    rw [changePixel]
    cases readPixel size cells i with
    | none => rfl
    | some old => rfl
  rw [changeRect, List.range_succ_eq_map, List.foldlM_cons, changeRow, List.range_succ_eq_map,
    List.foldlM_cons, pixel]
  rfl

theorem pixel_row {row : Int} (left : 0 ≤ px) (right : px < stride) (start : 0 ≤ x)
    (room : x + width ≤ stride) :
    (row * stride + x ≤ py * stride + px ∧ py * stride + px < row * stride + x + width) ↔
      py = row ∧ x ≤ px ∧ px < x + width := by
  constructor
  · rintro ⟨above, below⟩
    have same : py = row := by
      rcases lt_trichotomy py row with less | same | more
      · have rows : (py + 1) * stride ≤ row * stride :=
          Int.mul_le_mul_of_nonneg_right less (by omega)
        rw [Int.add_mul] at rows
        omega
      · exact same
      · have rows : (row + 1) * stride ≤ py * stride :=
          Int.mul_le_mul_of_nonneg_right more (by omega)
        rw [Int.add_mul] at rows
        omega
    subst same
    exact ⟨rfl, by omega, by omega⟩
  · rintro ⟨rfl, above, below⟩
    constructor
    · omega
    · omega

theorem changeRect_of_inside (cells : Int → α) {f : Nat → Nat → α → Option α}
    {g : Nat → Nat → α → α}
    (defined : ∀ row < height, ∀ col < width, ∀ a, f row col a = some (g row col a))
    (left : 0 ≤ x) (right : x + width ≤ stride) (top : 0 ≤ y)
    (bottom : (y + height) * stride ≤ size) :
    ∃ cells', changeRect size f cells stride x y width height = some cells' ∧
      ∀ px py, 0 ≤ px → px < stride →
        cells' (py * stride + px) =
          if x ≤ px ∧ px < x + width ∧ y ≤ py ∧ py < y + height then
            g (py - y).toNat (px - x).toNat (cells (py * stride + px))
          else cells (py * stride + px) := by
  have wide : 0 ≤ stride := by omega
  induction height with
  | zero =>
      refine ⟨cells, rfl, ?_⟩
      intro px py _ _
      rw [if_neg (by omega)]
  | succ height ih =>
  have rows : (y + (height + 1 : Nat)) * stride = (y + height) * stride + stride := by
    push_cast
    ring
  obtain ⟨cells₁, earlier, values⟩ :=
    ih (fun row less => defined row (Nat.lt_succ_of_lt less)) (by omega)
  have start : 0 ≤ (y + height) * stride + x :=
    Int.add_nonneg (Int.mul_nonneg (by omega) wide) left
  have room : (y + height) * stride + x + width ≤ size := by omega
  obtain ⟨cells', changed, value⟩ :=
    changeRow_of_inside cells₁ (defined height (Nat.lt_succ_self _)) start room
  refine ⟨cells', ?_, ?_⟩
  · rw [changeRect, List.range_succ, List.foldlM_append]
    rw [changeRect] at earlier
    simp only [earlier, Option.bind_eq_bind, Option.bind_some, List.foldlM_cons,
      List.foldlM_nil, changed]
    rfl
  intro px py pxLeft pxRight
  rw [value, values px py pxLeft pxRight]
  have inRow : _ ↔ py = y + height ∧ x ≤ px ∧ px < x + width :=
    pixel_row pxLeft pxRight left right
  by_cases last : py = y + height ∧ x ≤ px ∧ px < x + width
  · rw [if_pos (inRow.mpr last), if_neg (by omega), if_pos (by omega)]
    obtain ⟨rfl, -⟩ := last
    congr 1
    · omega
    · congr 1
      omega
  · rw [if_neg (fun inside => last (inRow.mp inside))]
    by_cases before : x ≤ px ∧ px < x + width ∧ y ≤ py ∧ py < y + height
    · rw [if_pos before, if_pos (by omega)]
    · rw [if_neg before, if_neg (by omega)]

end Charis.Lib
