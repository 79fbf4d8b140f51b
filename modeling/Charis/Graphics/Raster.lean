import Charis.Graphics.Barycentric
import Charis.Lib.PixelGrid

/-!
# Drawing triangles

`raster_draw_tri` tests the points of the bounding box that are on the screen.
-/

namespace Charis.Graphics

open Charis.Lib

/-- The pixels of `g_framebuffer`, row after row. -/
structure Canvas where
  width : Nat
  height : Nat
  pixels : Int → UInt32

/-- The smallest of three numbers, as `raster_draw_tri` finds it. -/
def lowest (a b c : Int) : Int :=
  if a < b then (if a < c then a else c) else (if b < c then b else c)

/-- The largest of three numbers. -/
def highest (a b c : Int) : Int :=
  if a > b then (if a > c then a else c) else (if b > c then b else c)

namespace Triangle

variable (t : Triangle)

/-- The first column or row of a bounding box on the screen. -/
def boxStart (a b c : Int) : Int :=
  let first := lowest a b c
  if first < 0 then 0 else first

/-- The last column or row of a bounding box on a screen of a size. -/
def boxEnd (a b c : Int) (size : Nat) : Int :=
  let last := highest a b c
  if last ≥ size then size - 1 else last

end Triangle

open Triangle in
/-- `raster_draw_tri`. -/
def rasterDrawTri (canvas : Canvas) (t : Triangle) (color : UInt32) : Option Canvas := do
  let minX := boxStart t.x0 t.x1 t.x2
  let maxX := boxEnd t.x0 t.x1 t.x2 canvas.width
  let minY := boxStart t.y0 t.y1 t.y2
  let maxY := boxEnd t.y0 t.y1 t.y2 canvas.height
  let pixels ←
    changeRect (canvas.width * canvas.height)
      (fun row col old => do
        let point ← rasterBarycentric (minX + col) (minY + row) t
        some (if point.isSome then color else old))
      canvas.pixels canvas.width minX minY (maxX + 1 - minX).toNat (maxY + 1 - minY).toNat
  some { canvas with pixels }

/-- A number between the least and the greatest of three, on a screen of a size. -/
def Between (a b c : Int) (size : Nat) (p : Int) : Prop :=
  (0 ≤ p ∧ p < size) ∧ (a ≤ p ∨ b ≤ p ∨ c ≤ p) ∧ (p ≤ a ∨ p ≤ b ∨ p ≤ c)

/-- A point of the bounding box on the screen. -/
def Canvas.InBox (canvas : Canvas) (t : Triangle) (x y : Int) : Prop :=
  Between t.x0 t.x1 t.x2 canvas.width x ∧ Between t.y0 t.y1 t.y2 canvas.height y

variable {a b c p : Int} {size : Nat}

theorem between_iff :
    Between a b c size p ↔ Triangle.boxStart a b c ≤ p ∧ p ≤ Triangle.boxEnd a b c size := by
  simp only [Between, Triangle.boxStart, Triangle.boxEnd, lowest, highest]
  omega

theorem mean_between {u v w : ℚ} (uNonneg : 0 ≤ u) (vNonneg : 0 ≤ v) (wNonneg : 0 ≤ w)
    (one : u + v + w = 1) (mean : (p : ℚ) = u * a + v * b + w * c) :
    (a ≤ p ∨ b ≤ p ∨ c ≤ p) ∧ (p ≤ a ∨ p ≤ b ∨ p ≤ c) := by
  have balance : u * (a - p) + v * (b - p) + w * (c - p) = 0 := by
    linear_combination -mean - (p : ℚ) * one
  have apart : ∀ {m n : Int}, m < n → (1 : ℚ) ≤ n - m := by
    intro m n less
    have gap : 1 ≤ n - m := by omega
    exact_mod_cast gap
  constructor
  · by_contra below
    push Not at below
    obtain ⟨aBelow, bBelow, cBelow⟩ := below
    have aGap := mul_le_mul_of_nonneg_left (apart aBelow) uNonneg
    have bGap := mul_le_mul_of_nonneg_left (apart bBelow) vNonneg
    have cGap := mul_le_mul_of_nonneg_left (apart cBelow) wNonneg
    linarith
  · by_contra above
    push Not at above
    obtain ⟨aAbove, bAbove, cAbove⟩ := above
    have aGap := mul_le_mul_of_nonneg_left (apart aAbove) uNonneg
    have bGap := mul_le_mul_of_nonneg_left (apart bAbove) vNonneg
    have cGap := mul_le_mul_of_nonneg_left (apart cAbove) wNonneg
    linarith

variable {canvas : Canvas} {t : Triangle} {x y : Int} {color : UInt32}

/-- The points of a triangle on the screen are in its bounding box. -/
theorem inBox_of_contains (column : 0 ≤ x ∧ x < canvas.width) (row : 0 ≤ y ∧ y < canvas.height)
    (contained : t.Contains x y) : canvas.InBox t x y := by
  obtain ⟨u, v, w, uNonneg, vNonneg, wNonneg, one, xMean, yMean⟩ := contained
  exact ⟨⟨column, mean_between uNonneg vNonneg wNonneg one xMean⟩,
    ⟨row, mean_between uNonneg vNonneg wNonneg one yMean⟩⟩

/-- The test of a point by what is left of its edge functions. -/
def Triangle.LowContains (t : Triangle) (x y : Int) : Prop :=
  LowInside (low16 t.denom) (low16 (t.numU x y)) (low16 (t.numV x y))

/-- The points of a set on the screen have a color, and all others are as before. -/
def Colors (canvas canvas' : Canvas) (color : UInt32) (points : Int → Int → Prop) : Prop :=
  ∀ x y : Int, 0 ≤ x → x < canvas.width →
    (0 ≤ y ∧ y < canvas.height ∧ points x y →
      canvas'.pixels (y * canvas.width + x) = color) ∧
    (¬ (0 ≤ y ∧ y < canvas.height ∧ points x y) →
      canvas'.pixels (y * canvas.width + x) = canvas.pixels (y * canvas.width + x))

/-- Without a bounding box on the screen nothing is drawn. -/
theorem rasterDrawTri_of_empty (empty : ∀ x y, ¬ canvas.InBox t x y) :
    rasterDrawTri canvas t color = some canvas := by
  have none : (Triangle.boxEnd t.x0 t.x1 t.x2 canvas.width + 1 -
        Triangle.boxStart t.x0 t.x1 t.x2).toNat = 0 ∨
      (Triangle.boxEnd t.y0 t.y1 t.y2 canvas.height + 1 -
        Triangle.boxStart t.y0 t.y1 t.y2).toNat = 0 := by
    by_contra some
    apply empty (Triangle.boxStart t.x0 t.x1 t.x2) (Triangle.boxStart t.y0 t.y1 t.y2)
    constructor
    · rw [between_iff]
      omega
    · rw [between_iff]
      omega
  cases none with
  | inl noColumns =>
      simp only [rasterDrawTri, noColumns, changeRect_of_no_columns, Option.bind_eq_bind,
        Option.bind_some]
  | inr noRows =>
      simp only [rasterDrawTri, noRows, changeRect_of_no_rows, Option.bind_eq_bind,
        Option.bind_some]

/-- A box on the screen, and a double area of which nothing is left. -/
theorem rasterDrawTri_of_zero (area : t.denom ≠ 0) (inBox : canvas.InBox t x y)
    (zero : low16 t.denom = 0) : rasterDrawTri canvas t color = none := by
  obtain ⟨column, row⟩ := inBox
  rw [between_iff] at column row
  have fails : ∀ row col old, (do
      let point ← rasterBarycentric (Triangle.boxStart t.x0 t.x1 t.x2 + (col : Nat))
        (Triangle.boxStart t.y0 t.y1 t.y2 + (row : Nat)) t
      some (if point.isSome then color else old)) = none := by
    intro row col old
    rw [(rasterBarycentric_spec area _ _).1 zero]
    rfl
  simp only [rasterDrawTri, fails]
  rw [changeRect_of_undefined]
  · rfl
  · omega
  · omega

/-- A box on the screen, and a double area of which something is left. -/
theorem rasterDrawTri_of_low (color : UInt32) (area : t.denom ≠ 0) (inBox : canvas.InBox t x y)
    (nonzero : low16 t.denom ≠ 0) :
    ∃ canvas', rasterDrawTri canvas t color = some canvas' ∧
      Colors canvas canvas' color fun x y => canvas.InBox t x y ∧ t.LowContains x y := by
  obtain ⟨column, row⟩ := inBox
  have left : 0 ≤ Triangle.boxStart t.x0 t.x1 t.x2 := by
    simp only [Triangle.boxStart]
    omega
  have top : 0 ≤ Triangle.boxStart t.y0 t.y1 t.y2 := by
    simp only [Triangle.boxStart]
    omega
  have last (a b c : Int) (size : Nat) : Triangle.boxEnd a b c size < size := by
    simp only [Triangle.boxEnd]
    omega
  have lastColumn := last t.x0 t.x1 t.x2 canvas.width
  have lastRow := last t.y0 t.y1 t.y2 canvas.height
  rw [between_iff] at column row
  generalize columns : Triangle.boxStart t.x0 t.x1 t.x2 = minX at *
  generalize rows : Triangle.boxStart t.y0 t.y1 t.y2 = minY at *
  -- The outcome of the test.
  have tested : ∀ x y, ∃ result, rasterBarycentric x y t = some result ∧
      (result.isSome ↔ t.LowContains x y) := fun x y =>
    (rasterBarycentric_spec area x y).2 nonzero
  choose result outcome verdict using tested
  have defined : ∀ row < (Triangle.boxEnd t.y0 t.y1 t.y2 canvas.height + 1 - minY).toNat,
      ∀ col < (Triangle.boxEnd t.x0 t.x1 t.x2 canvas.width + 1 - minX).toNat, ∀ old,
        (rasterBarycentric (minX + (col : Nat)) (minY + (row : Nat)) t).bind
            (fun point => some (if point.isSome then color else old)) =
          some (if (result (minX + col) (minY + row)).isSome then color else old) := by
    intro row _ col _ old
    rw [outcome, Option.bind_some]
  have right : minX + (Triangle.boxEnd t.x0 t.x1 t.x2 canvas.width + 1 - minX).toNat ≤
      canvas.width := by
    omega
  have bottom : (minY + (Triangle.boxEnd t.y0 t.y1 t.y2 canvas.height + 1 - minY).toNat) *
      (canvas.width : Int) ≤ canvas.width * canvas.height := by
    rw [Int.mul_comm (canvas.width : Int)]
    apply Int.mul_le_mul_of_nonneg_right
    · omega
    · omega
  obtain ⟨pixels, changed, value⟩ :=
    changeRect_of_inside canvas.pixels defined left right top bottom
  refine ⟨{ canvas with pixels }, ?_, ?_⟩
  · simp only [rasterDrawTri, columns, rows, Option.bind_eq_bind]
    rw [changed, Option.bind_some]
  intro x y xLeft xRight
  have here := value x y xLeft xRight
  have inBox : canvas.InBox t x y ↔ x ≥ minX ∧
      x < minX + (Triangle.boxEnd t.x0 t.x1 t.x2 canvas.width + 1 - minX).toNat ∧ y ≥ minY ∧
      y < minY + (Triangle.boxEnd t.y0 t.y1 t.y2 canvas.height + 1 - minY).toNat := by
    rw [Canvas.InBox, between_iff, between_iff, columns, rows]
    omega
  by_cases inside : canvas.InBox t x y
  · have bounds := inBox.mp inside
    rw [if_pos bounds] at here
    have xEq : minX + ((x - minX).toNat : Int) = x := by omega
    have yEq : minY + ((y - minY).toNat : Int) = y := by omega
    rw [xEq, yEq] at here
    constructor
    · rintro ⟨-, -, -, contained⟩
      exact here.trans (if_pos ((verdict x y).mpr contained))
    · intro outside
      apply here.trans
      apply if_neg
      intro contained
      apply outside
      exact ⟨inside.2.1.1, inside.2.1.2, inside, (verdict x y).mp contained⟩
  · rw [if_neg fun bounds => inside (inBox.mpr bounds)] at here
    constructor
    · rintro ⟨-, -, inside', -⟩
      exact absurd inside' inside
    · intro _
      exact here

/-- The test is right at a point: the edge functions fit into 16 bits, or what is left of them gives
the same verdict. -/
def Triangle.RightAt (t : Triangle) (x y : Int) : Prop :=
  Fits t.denom (t.numU x y) (t.numV x y) ∨
    low16 t.denom ≠ 0 ∧ (t.LowContains x y ↔ Inside t.denom (t.numU x y) (t.numV x y))

theorem Triangle.RightAt.lowContains_iff (area : t.denom ≠ 0) (right : t.RightAt x y) :
    low16 t.denom ≠ 0 ∧ (t.LowContains x y ↔ t.Contains x y) := by
  rw [Triangle.contains_iff area]
  cases right with
  | inl fits =>
      refine ⟨?_, fits.inside_iff⟩
      rw [low16_of_small fits.1.1 fits.1.2]
      exact area
  | inr same => exact same

theorem exists_other_color (color : UInt32) : ∃ other, other ≠ color := by
  by_cases black : color = 0
  · exact ⟨1, by rw [black]; decide⟩
  · exact ⟨0, fun same => black same.symm⟩

/-- Half of a square on a larger screen. -/
def smallTriangle : Triangle := ⟨0, 0, 4, 0, 0, 4⟩

/-- A triangle around the origin with a double area of 90000. -/
def wideTriangle : Triangle := ⟨-100, -100, 200, -100, -100, 200⟩

end Charis.Graphics
