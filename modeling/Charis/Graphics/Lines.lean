import Charis.Boot.Framebuffer
import Charis.Graphics.Barycentric
import Charis.Lib.GridPath

/-!
# Lines

`graphics_line` goes from one end to the other by an error term.  The test for a step in the
column compares the error term with the height of the line, which has the wrong sign for it, so
that most lines that are neither flat nor upright miss their end and never stop.
-/

namespace Charis.Graphics

open Charis.Boot Charis.Lib

/-- The variables of `graphics_line` that stay. -/
structure Line where
  x1 : Int
  y1 : Int
  dx : Int
  dy : Int
  sx : Int
  sy : Int

/-- The variables of `graphics_line` that change. -/
structure Cursor where
  x : Int
  y : Int
  err : Int

/-- The memory of the machine, and the points that were handed to `fb_put_pixel`. -/
structure Drawing where
  memory : ByteMemory
  plotted : List (Int × Int) := []

/-- A conversion to `u32`. -/
def toU32 (n : Int) : Int := n % 2 ^ 32

/-- The variables as `graphics_line` computes them from its arguments. -/
def lineOf (x0 y0 x1 y1 : Nat) : Line :=
  let dx := toS32 (toS32 x1 - toS32 x0)
  let dy := toS32 (toS32 y1 - toS32 y0)
  { x1 := toS32 x1
    y1 := toS32 y1
    dx
    dy
    sx := if 0 < dx then 1 else -1
    sy := if 0 < dy then 1 else -1 }

def cursorOf (x0 y0 x1 y1 : Nat) : Cursor :=
  let line := lineOf x0 y0 x1 y1
  { x := toS32 x0
    y := toS32 y0
    err := if line.dy < line.dx then line.dx else toS32 (-line.dy) }

/-- The step in the column. -/
def stepX (line : Line) (e2 : Int) (c : Cursor) : Cursor :=
  if line.dy ≤ e2 then { c with err := toS32 (c.err - line.dy), x := toS32 (c.x + line.sx) }
  else c

/-- The step in the row. -/
def stepY (line : Line) (e2 : Int) (c : Cursor) : Cursor :=
  if e2 ≤ line.dx then { c with err := toS32 (c.err - line.dx), y := toS32 (c.y + line.sy) }
  else c

/-- The body of the loop of `graphics_line`, without the pixel. -/
def lineStep (line : Line) (c : Cursor) : Cursor :=
  let e2 := toS32 (2 * c.err)
  stepY line e2 (stepX line e2 c)

/-- A point that is handed to `fb_put_pixel`. -/
def Cursor.point (c : Cursor) : Int × Int := (toU32 c.x, toU32 c.y)

/-- A pixel of the line is drawn if there is a framebuffer. -/
def plot (fb : Framebuffer) (color : Nat) (drawing : Drawing) (c : Cursor) : Drawing :=
  if fb.initialized then
    { memory := fbPutPixel fb drawing.memory c.point.1.toNat c.point.2.toNat color
      plotted := drawing.plotted ++ [c.point] }
  else drawing

/-- The test of the loop. -/
def AtEnd (line : Line) (c : Cursor) : Prop := c.x = line.x1 ∧ c.y = line.y1

instance (line : Line) (c : Cursor) : Decidable (AtEnd line c) := inferInstanceAs (Decidable (_ ∧ _))

/-- The loop of `graphics_line`, if a number of rounds is enough for it. -/
def lineLoop (fb : Framebuffer) (color : Nat) (line : Line) :
    (rounds : Nat) → Cursor → Drawing → Option Drawing
  | 0, _, _ => none
  | rounds + 1, c, drawing =>
      if AtEnd line c then some drawing
      else
        let c := lineStep line c
        lineLoop fb color line rounds c (plot fb color drawing c)

/-- `graphics_line`, if a number of rounds is enough for it. -/
def graphicsLine (fb : Framebuffer) (color : Nat) (memory : ByteMemory) (x0 y0 x1 y1 : Nat)
    (rounds : Nat) : Option Drawing :=
  let c := cursorOf x0 y0 x1 y1
  lineLoop fb color (lineOf x0 y0 x1 y1) rounds c (plot fb color { memory } c)

/-- The number of steps of a line. -/
def lineSteps (x0 y0 x1 y1 : Nat) : Nat :=
  max ((x1 : Int) - x0).natAbs ((y1 : Int) - y0).natAbs

/-- `graphics_line` ends, and the points that it plots are a path from one end to the other which
has as many steps as the longer side of the box around it, and which stays in that box. -/
def DrawsLine (x0 y0 x1 y1 : Nat) : Prop :=
  ∃ points,
    IsPath (x0, y0) (x1, y1) (lineSteps x0 y0 x1 y1) points ∧
      (∀ point ∈ points, InBox (x0, y0) (x1, y1) point) ∧
      ∀ fb color memory, ∃ rounds memory',
        graphicsLine fb color memory x0 y0 x1 y1 rounds =
          some ⟨memory', if fb.initialized then points else []⟩

/-- The cursor after a number of steps. -/
def trace (x0 y0 x1 y1 : Nat) (k : Nat) : Cursor :=
  (lineStep (lineOf x0 y0 x1 y1))^[k] (cursorOf x0 y0 x1 y1)

theorem trace_succ (x0 y0 x1 y1 k : Nat) :
    trace x0 y0 x1 y1 (k + 1) = lineStep (lineOf x0 y0 x1 y1) (trace x0 y0 x1 y1 k) :=
  Function.iterate_succ_apply' _ _ _

/-- The end is reached after a number of steps, and not before. -/
def Reaches (line : Line) (c : Cursor) (steps : Nat) : Prop :=
  AtEnd line ((lineStep line)^[steps] c) ∧ ∀ k < steps, ¬AtEnd line ((lineStep line)^[k] c)

theorem reaches_succ {line : Line} {c : Cursor} {steps : Nat} :
    Reaches line c (steps + 1) ↔ ¬AtEnd line c ∧ Reaches line (lineStep line c) steps := by
  constructor
  · rintro ⟨ends, first⟩
    refine ⟨first 0 (Nat.succ_pos _), ends, ?_⟩
    intro k below
    exact first (k + 1) (Nat.succ_lt_succ below)
  · rintro ⟨going, ends, first⟩
    refine ⟨ends, ?_⟩
    intro k below
    cases k with
    | zero => exact going
    | succ k => exact first k (Nat.lt_of_succ_lt_succ below)

section Loop

variable {fb : Framebuffer} {color : Nat} {line : Line} {c : Cursor} {drawing drawing' : Drawing}

/-- The loop draws the points of the cursor until it is at the end. -/
theorem lineLoop_eq_some {rounds : Nat} :
    lineLoop fb color line rounds c drawing = some drawing' ↔
      ∃ steps < rounds, Reaches line c steps ∧
        drawing' = ((List.range steps).map fun k => (lineStep line)^[k + 1] c).foldl
          (plot fb color) drawing := by
  induction rounds generalizing c drawing with
  | zero => simp [lineLoop]
  | succ rounds ih =>
  rw [lineLoop]
  by_cases ends : AtEnd line c
  · rw [if_pos ends, Option.some_inj]
    constructor
    · rintro rfl
      exact ⟨0, Nat.succ_pos _, ⟨ends, nofun⟩, rfl⟩
    · rintro ⟨steps, -, ⟨-, first⟩, rfl⟩
      cases steps with
      | zero => rfl
      | succ steps => exact absurd ends (first 0 (Nat.succ_pos _))
  rw [if_neg ends]
  refine ih.trans ?_
  constructor
  · rintro ⟨steps, enough, reaches, rfl⟩
    refine ⟨steps + 1, Nat.succ_lt_succ enough, reaches_succ.mpr ⟨ends, reaches⟩, ?_⟩
    rw [List.range_succ_eq_map, List.map_cons, List.map_map]
    rfl
  · rintro ⟨steps, enough, reaches, rfl⟩
    cases steps with
    | zero => exact absurd reaches.1 ends
    | succ steps =>
        refine ⟨steps, Nat.lt_of_succ_lt_succ enough, (reaches_succ.mp reaches).2, ?_⟩
        rw [List.range_succ_eq_map, List.map_cons, List.map_map]
        rfl

theorem plotted_foldl (cursors : List Cursor) :
    (cursors.foldl (plot fb color) drawing).plotted =
      if fb.initialized then drawing.plotted ++ cursors.map Cursor.point else drawing.plotted := by
  induction cursors generalizing drawing with
  | nil => simp
  | cons c cursors ih =>
      rw [List.foldl_cons, ih, plot]
      split
      · simp
      · rfl

end Loop

section Draws

variable {x0 y0 x1 y1 : Nat}

/-- The points of the cursor. -/
abbrev walk (x0 y0 x1 y1 k : Nat) : Int × Int := (trace x0 y0 x1 y1 k).point

theorem plotted_line (fb : Framebuffer) (color : Nat) (memory : ByteMemory) (steps : Nat) :
    (((List.range steps).map fun k => trace x0 y0 x1 y1 (k + 1)).foldl (plot fb color)
      (plot fb color { memory } (cursorOf x0 y0 x1 y1))).plotted =
      if fb.initialized then visited (walk x0 y0 x1 y1) steps else [] := by
  rw [plotted_foldl, plot]
  split
  · rw [visited_eq_cons, List.map_map]
    rfl
  · rfl

theorem graphicsLine_plotted {fb : Framebuffer} {color rounds : Nat} {memory : ByteMemory}
    {drawing : Drawing}
    (ends : graphicsLine fb color memory x0 y0 x1 y1 rounds = some drawing) :
    ∃ steps, Reaches (lineOf x0 y0 x1 y1) (cursorOf x0 y0 x1 y1) steps ∧
      drawing.plotted = if fb.initialized then visited (walk x0 y0 x1 y1) steps else [] := by
  obtain ⟨steps, -, reaches, rfl⟩ := lineLoop_eq_some.mp ends
  exact ⟨steps, reaches, plotted_line fb color memory steps⟩

theorem exists_graphicsLine {steps : Nat}
    (reaches : Reaches (lineOf x0 y0 x1 y1) (cursorOf x0 y0 x1 y1) steps) (fb : Framebuffer)
    (color : Nat) (memory : ByteMemory) :
    ∃ rounds memory', graphicsLine fb color memory x0 y0 x1 y1 rounds =
      some ⟨memory', if fb.initialized then visited (walk x0 y0 x1 y1) steps else []⟩ := by
  rw [← plotted_line fb color memory]
  exact ⟨steps + 1, _, lineLoop_eq_some.mpr ⟨steps, Nat.lt_succ_self _, reaches, rfl⟩⟩

/-- A line is drawn as it should be if and only if the cursor goes as it should. -/
structure GoesWell (x0 y0 x1 y1 : Nat) : Prop where
  start : walk x0 y0 x1 y1 0 = ((x0 : Int), (y0 : Int))
  finish : walk x0 y0 x1 y1 (lineSteps x0 y0 x1 y1) = ((x1 : Int), (y1 : Int))
  reaches : Reaches (lineOf x0 y0 x1 y1) (cursorOf x0 y0 x1 y1) (lineSteps x0 y0 x1 y1)
  inside : ∀ k ≤ lineSteps x0 y0 x1 y1, InBox (x0, y0) (x1, y1) (walk x0 y0 x1 y1 k)
  connected : ∀ k < lineSteps x0 y0 x1 y1,
    Neighbours (walk x0 y0 x1 y1 k) (walk x0 y0 x1 y1 (k + 1))

theorem drawsLine_iff_goesWell : DrawsLine x0 y0 x1 y1 ↔ GoesWell x0 y0 x1 y1 := by
  constructor
  · rintro ⟨points, path, inside, draws⟩
    obtain ⟨rounds, memory', ends⟩ := draws { initialized := true } 0 (fun _ => 0)
    obtain ⟨steps, reaches, plotted⟩ := graphicsLine_plotted ends
    have points_are : points = visited (walk x0 y0 x1 y1) steps := plotted
    have length := path.length
    rw [points_are, length_visited, Nat.add_right_cancel_iff] at length
    subst length points_are
    obtain ⟨start, finish, connected⟩ := isPath_visited.mp path
    refine ⟨start, finish, reaches, ?_, connected⟩
    intro k below
    exact inside _ (mem_visited.mpr ⟨k, below, rfl⟩)
  · intro well
    refine ⟨visited (walk x0 y0 x1 y1) (lineSteps x0 y0 x1 y1),
      isPath_visited.mpr ⟨well.start, well.finish, well.connected⟩, ?_, ?_⟩
    · intro point mem
      obtain ⟨k, below, rfl⟩ := mem_visited.mp mem
      exact well.inside k below
    · intro fb color memory
      exact exists_graphicsLine well.reaches fb color memory

end Draws

theorem lineStep_fields (line : Line) (c : Cursor) :
    lineStep line c =
      let e2 := toS32 (2 * c.err)
      let err := if line.dy ≤ e2 then toS32 (c.err - line.dy) else c.err
      { x := if line.dy ≤ e2 then toS32 (c.x + line.sx) else c.x
        y := if e2 ≤ line.dx then toS32 (c.y + line.sy) else c.y
        err := if e2 ≤ line.dx then toS32 (err - line.dx) else err } := by
  by_cases column : line.dy ≤ toS32 (2 * c.err)
  · by_cases row : toS32 (2 * c.err) ≤ line.dx
    · simp only [lineStep, stepX, stepY, if_pos column, if_pos row]
    · simp only [lineStep, stepX, stepY, if_pos column, if_neg row]
  · by_cases row : toS32 (2 * c.err) ≤ line.dx
    · simp only [lineStep, stepX, stepY, if_neg column, if_pos row]
    · simp only [lineStep, stepX, stepY, if_neg column, if_neg row]

section Steps

variable {x0 y0 x1 y1 : Nat}

/-- Ends with small coordinates. -/
structure Small (x0 y0 x1 y1 : Nat) : Prop where
  x0 : x0 < 2 ^ 15
  y0 : y0 < 2 ^ 15
  x1 : x1 < 2 ^ 15
  y1 : y1 < 2 ^ 15

theorem lineOf_eq (small : Small x0 y0 x1 y1) :
    lineOf x0 y0 x1 y1 =
      { x1 := x1
        y1 := y1
        dx := (x1 : Int) - x0
        dy := (y1 : Int) - y0
        sx := if (x0 : Int) < x1 then 1 else -1
        sy := if (y0 : Int) < y1 then 1 else -1 } := by
  obtain ⟨hx0, hy0, hx1, hy1⟩ := small
  rw [lineOf]
  rw [toS32_of_small (n := x1) (by omega) (by omega), toS32_of_small (n := x0) (by omega) (by omega),
    toS32_of_small (n := y1) (by omega) (by omega), toS32_of_small (n := y0) (by omega) (by omega),
    toS32_of_small (n := x1 - x0) (by omega) (by omega),
    toS32_of_small (n := y1 - y0) (by omega) (by omega)]
  simp only [Int.sub_pos]

theorem cursorOf_eq (small : Small x0 y0 x1 y1) :
    cursorOf x0 y0 x1 y1 =
      { x := x0
        y := y0
        err := if (y1 : Int) - y0 < x1 - x0 then (x1 : Int) - x0 else y0 - y1 } := by
  have line := lineOf_eq small
  obtain ⟨hx0, hy0, hx1, hy1⟩ := small
  rw [cursorOf, line]
  rw [toS32_of_small (n := x0) (by omega) (by omega), toS32_of_small (n := y0) (by omega) (by omega)]
  dsimp only
  rw [Int.neg_sub, toS32_of_small (n := (y0 : Int) - y1) (by omega) (by omega)]

theorem lineStep_eq (small : Small x0 y0 x1 y1) {c : Cursor}
    (err : -2 ^ 30 < c.err ∧ c.err < 2 ^ 30) (x : -2 ^ 16 < c.x ∧ c.x < 2 ^ 16)
    (y : -2 ^ 16 < c.y ∧ c.y < 2 ^ 16) :
    lineStep (lineOf x0 y0 x1 y1) c =
      { x := if (y1 : Int) - y0 ≤ 2 * c.err then c.x + (if (x0 : Int) < x1 then 1 else -1) else c.x
        y := if 2 * c.err ≤ (x1 : Int) - x0 then c.y + (if (y0 : Int) < y1 then 1 else -1) else c.y
        err := c.err - (if (y1 : Int) - y0 ≤ 2 * c.err then (y1 : Int) - y0 else 0) -
          (if 2 * c.err ≤ (x1 : Int) - x0 then (x1 : Int) - x0 else 0) } := by
  rw [lineStep_fields, lineOf_eq small]
  obtain ⟨hx0, hy0, hx1, hy1⟩ := small
  dsimp only
  rw [toS32_of_small (n := 2 * c.err) (by omega) (by omega)]
  congr 1
  · split
    · rw [toS32_of_small (by split <;> omega) (by split <;> omega)]
    · rfl
  · split
    · rw [toS32_of_small (by split <;> omega) (by split <;> omega)]
    · rfl
  · split
    · rw [toS32_of_small (n := c.err - _) (by omega) (by omega)]
      split
      · rw [toS32_of_small (by omega) (by omega)]
      · rw [Int.sub_zero, toS32_of_small (by omega) (by omega)]
    · split
      · rw [toS32_of_small (by omega) (by omega), Int.sub_zero]
      · rw [Int.sub_zero, Int.sub_zero]

/-- Where one step leads from a point with small coordinates, whatever the error term is. -/
theorem lineStep_point (small : Small x0 y0 x1 y1) {c : Cursor} (x : 0 ≤ c.x ∧ c.x < 2 ^ 15)
    (y : 0 ≤ c.y ∧ c.y < 2 ^ 15) :
    (lineStep (lineOf x0 y0 x1 y1) c).x =
        (if (y1 : Int) - y0 ≤ toS32 (2 * c.err) then c.x + (if (x0 : Int) < x1 then 1 else -1)
        else c.x) ∧
      (lineStep (lineOf x0 y0 x1 y1) c).y =
        if toS32 (2 * c.err) ≤ (x1 : Int) - x0 then c.y + (if (y0 : Int) < y1 then 1 else -1)
        else c.y := by
  rw [lineStep_fields, lineOf_eq small]
  dsimp only
  rw [toS32_of_small (n := c.x + _) (by split <;> omega) (by split <;> omega),
    toS32_of_small (n := c.y + _) (by split <;> omega) (by split <;> omega)]
  exact ⟨rfl, rfl⟩

theorem trace_zero (small : Small x0 y0 x1 y1) :
    trace x0 y0 x1 y1 0 =
      { x := x0
        y := y0
        err := if (y1 : Int) - y0 < x1 - x0 then (x1 : Int) - x0 else y0 - y1 } :=
  cursorOf_eq small

end Steps

/-! ## Lines that miss their end -/

/-- A coordinate that never changes. -/
theorem eq_of_still {place : Nat → Int} {steps : Nat}
    (still : ∀ k < steps, place (k + 1) = place k) : place steps = place 0 := by
  induction steps with
  | zero => rfl
  | succ steps ih =>
      rw [still steps (Nat.lt_succ_self _)]
      exact ih (fun k below => still k (Nat.lt_succ_of_lt below))

namespace GoesWell

variable {x0 y0 x1 y1 k : Nat} (well : GoesWell x0 y0 x1 y1) (small : Small x0 y0 x1 y1)

include well small

/-- The cursor itself stays in the box. -/
theorem cursor_inside (below : k ≤ lineSteps x0 y0 x1 y1) :
    (min (x0 : Int) x1 ≤ (trace x0 y0 x1 y1 k).x ∧ (trace x0 y0 x1 y1 k).x ≤ max (x0 : Int) x1) ∧
      min (y0 : Int) y1 ≤ (trace x0 y0 x1 y1 k).y ∧
        (trace x0 y0 x1 y1 k).y ≤ max (y0 : Int) y1 := by
  have bounds := small
  obtain ⟨hx0, hy0, hx1, hy1⟩ := bounds
  induction k with
  | zero =>
      rw [trace_zero small]
      dsimp only
      omega
  | succ k ih =>
  have before := ih (Nat.le_of_succ_le below)
  obtain ⟨columns, rows⟩ := well.inside (k + 1) below
  obtain ⟨column, row⟩ := @lineStep_point x0 y0 x1 y1 small (trace x0 y0 x1 y1 k)
    (by omega) (by omega)
  rw [← trace_succ] at column row
  rw [walk, Cursor.point, toU32, toU32] at columns rows
  -- A coordinate of -1 would be a large one as a number without a sign.
  have near_x : -1 ≤ (trace x0 y0 x1 y1 (k + 1)).x ∧
      (trace x0 y0 x1 y1 (k + 1)).x ≤ 2 ^ 15 := by
    rw [column]
    split
    · split <;> omega
    · omega
  have near_y : -1 ≤ (trace x0 y0 x1 y1 (k + 1)).y ∧
      (trace x0 y0 x1 y1 (k + 1)).y ≤ 2 ^ 15 := by
    rw [row]
    split
    · split <;> omega
    · omega
  dsimp only at columns rows
  omega

/-- Where the cursor goes in a step. -/
theorem next_point (below : k < lineSteps x0 y0 x1 y1) :
    (trace x0 y0 x1 y1 (k + 1)).x =
        (if (y1 : Int) - y0 ≤ toS32 (2 * (trace x0 y0 x1 y1 k).err) then
          (trace x0 y0 x1 y1 k).x + (if (x0 : Int) < x1 then 1 else -1)
        else (trace x0 y0 x1 y1 k).x) ∧
      (trace x0 y0 x1 y1 (k + 1)).y =
        if toS32 (2 * (trace x0 y0 x1 y1 k).err) ≤ (x1 : Int) - x0 then
          (trace x0 y0 x1 y1 k).y + (if (y0 : Int) < y1 then 1 else -1)
        else (trace x0 y0 x1 y1 k).y := by
  have inside := well.cursor_inside small (Nat.le_of_lt below)
  obtain ⟨hx0, hy0, hx1, hy1⟩ := id small
  rw [trace_succ]
  exact lineStep_point small (by omega) (by omega)

theorem ends_at : (trace x0 y0 x1 y1 (lineSteps x0 y0 x1 y1)).x = x1 ∧
    (trace x0 y0 x1 y1 (lineSteps x0 y0 x1 y1)).y = y1 := by
  have ends := well.reaches.1
  rw [lineOf_eq small] at ends
  rw [trace, lineOf_eq small]
  exact ends

/-- If the line is as wide as it has steps, the column changes in every step. -/
theorem every_column (wide : lineSteps x0 y0 x1 y1 = ((x1 : Int) - x0).natAbs)
    (below : k < lineSteps x0 y0 x1 y1) :
    (y1 : Int) - y0 ≤ toS32 (2 * (trace x0 y0 x1 y1 k).err) := by
  by_contra stays
  have moves := @ne_of_distance (fun k => (trace x0 y0 x1 y1 k).x) (lineSteps x0 y0 x1 y1)
    (by
      intro k below
      have next := (well.next_point small below).1
      rw [abs_le]
      split at next
      · split at next <;> omega
      · omega)
    (by
      rw [(well.ends_at small).1, trace_zero small, wide]
      exact (Int.abs_eq_natAbs _).ge) k below
  have next := (well.next_point small below).1
  rw [if_neg stays] at next
  exact moves next

/-- If the line is as high as it has steps, the row changes in every step. -/
theorem every_row (high : lineSteps x0 y0 x1 y1 = ((y1 : Int) - y0).natAbs)
    (below : k < lineSteps x0 y0 x1 y1) :
    toS32 (2 * (trace x0 y0 x1 y1 k).err) ≤ (x1 : Int) - x0 := by
  by_contra stays
  have moves := @ne_of_distance (fun k => (trace x0 y0 x1 y1 k).y) (lineSteps x0 y0 x1 y1)
    (by
      intro k below
      have next := (well.next_point small below).2
      rw [abs_le]
      split at next
      · split at next <;> omega
      · omega)
    (by
      rw [(well.ends_at small).2, trace_zero small, high]
      exact (Int.abs_eq_natAbs _).ge) k below
  have next := (well.next_point small below).2
  rw [if_neg stays] at next
  exact moves next

theorem not_down_left (down : y0 < y1) : ¬x1 < x0 := by
  intro left
  have some : 0 < lineSteps x0 y0 x1 y1 := by
    rw [lineSteps]
    omega
  by_cases wide : ((y1 : Int) - y0).natAbs ≤ ((x1 : Int) - x0).natAbs
  · have first := well.every_column small (Nat.max_eq_left wide) some
    obtain ⟨hx0, hy0, hx1, hy1⟩ := id small
    rw [trace_zero small, if_neg (by omega)] at first
    dsimp only at first
    rw [toS32_of_small (by omega) (by omega)] at first
    omega
  · have still : ∀ k < lineSteps x0 y0 x1 y1,
        (trace x0 y0 x1 y1 (k + 1)).x = (trace x0 y0 x1 y1 k).x := by
      intro k below
      have every := well.every_row small (Nat.max_eq_right (Nat.le_of_not_le wide)) below
      rw [(well.next_point small below).1, if_neg (by omega)]
    have rests := @eq_of_still (fun k => (trace x0 y0 x1 y1 k).x) _ still
    have ends := (well.ends_at small).1
    rw [trace_zero small] at rests
    dsimp only at rests
    omega

/-- Straight up the column changes at first. -/
theorem not_up (up : y1 < y0) : ¬x1 = x0 := by
  intro same
  subst same
  have some : 0 < lineSteps x1 y0 x1 y1 := by
    rw [lineSteps]
    omega
  have error : (trace x1 y0 x1 y1 0).err = 0 := by
    rw [trace_zero small]
    dsimp only
    rw [if_pos (by omega), Int.sub_self]
  have moves : (y1 : Int) - y0 ≤ toS32 (2 * 0) := by
    rw [toS32_of_small (by decide) (by decide)]
    omega
  have next := (well.next_point small some).1
  have before := (well.cursor_inside (k := 0) small (Nat.zero_le _)).1
  have after := (well.cursor_inside (k := 0 + 1) small some).1
  rw [error, if_pos moves, if_neg (Int.lt_irrefl _)] at next
  omega

theorem not_steep_up_left (left : x1 < x0) : ¬(y1 : Int) - y0 < x1 - x0 := by
  intro steep
  have two : 1 < lineSteps x0 y0 x1 y1 := by
    rw [lineSteps]
    omega
  have high : lineSteps x0 y0 x1 y1 = ((y1 : Int) - y0).natAbs := by
    rw [lineSteps]
    omega
  have second := well.every_row small high two
  obtain ⟨hx0, hy0, hx1, hy1⟩ := id small
  rw [trace_succ, trace_zero small, if_pos steep, lineStep_eq small (by dsimp only; omega)
    (by dsimp only; omega) (by dsimp only; omega)] at second
  dsimp only at second
  rw [if_pos (c := 2 * ((x1 : Int) - x0) ≤ x1 - x0) (by omega)] at second
  split at second
  · rw [toS32_of_small (by omega) (by omega)] at second
    omega
  · rw [toS32_of_small (by omega) (by omega)] at second
    omega

end GoesWell

theorem mul_small {a b : Int} (ha : 0 ≤ a) (ha' : a < 2 ^ 15) (hb : 0 ≤ b) (hb' : b < 2 ^ 15) :
    0 ≤ a * b ∧ a * b ≤ 32767 * 32767 := by
  constructor
  · exact Int.mul_nonneg ha hb
  · exact Int.mul_le_mul (Int.le_of_lt_add_one ha') (Int.le_of_lt_add_one hb') hb (by decide)

section Drift

variable {x0 y0 x1 y1 k : Nat} (small : Small x0 y0 x1 y1)

include small

/-- Steeply down to the right the error term falls, and the column stays. -/
theorem trace_steep (right : x0 < x1) (steep : x1 - x0 ≤ y1 - y0) (below : k ≤ y1 - y0) :
    trace x0 y0 x1 y1 k =
      ⟨x0, y0 + k, (y0 : Int) - y1 - k * (x1 - x0)⟩ := by
  obtain ⟨hx0, hy0, hx1, hy1⟩ := id small
  induction k with
  | zero =>
      rw [trace_zero small, if_neg (by omega), Int.natCast_zero, Int.zero_mul, Int.add_zero,
        Int.sub_zero]
  | succ k ih =>
  have product := @mul_small k ((x1 : Int) - x0) (by omega) (by omega) (by omega) (by omega)
  have next : ((k + 1 : Nat) : Int) * (x1 - x0) = k * (x1 - x0) + (x1 - x0) := by
    push_cast
    ring
  rw [trace_succ, ih (Nat.le_of_succ_le below), next]
  generalize (k : Int) * (x1 - x0) = error at *
  have column : ¬(y1 : Int) - y0 ≤ 2 * (y0 - y1 - error) := by omega
  have row : 2 * ((y0 : Int) - y1 - error) ≤ x1 - x0 := by omega
  have down : (y0 : Int) < y1 := by omega
  rw [lineStep_eq small (by dsimp only; omega) (by dsimp only; omega) (by dsimp only; omega)]
  simp only [if_neg column, if_pos row, if_pos down]
  rw [Cursor.mk.injEq]
  push_cast
  omega

/-- Up to the right, and flatly up to the left, the error term grows, and the row stays. -/
theorem trace_up {error : Int} (up : y1 < y0)
    (start : error = if (y1 : Int) - y0 < x1 - x0 then (x1 : Int) - x0 else y0 - y1)
    (grows : (x1 : Int) - x0 < 2 * error) (positive : 0 < error)
    (below : k ≤ lineSteps x0 y0 x1 y1) :
    trace x0 y0 x1 y1 k =
      ⟨x0 + k * (if (x0 : Int) < x1 then 1 else -1), y0, error + k * (y0 - y1)⟩ := by
  obtain ⟨hx0, hy0, hx1, hy1⟩ := id small
  rw [lineSteps] at below
  induction k with
  | zero =>
      rw [trace_zero small, ← start, Int.natCast_zero, Int.zero_mul, Int.zero_mul, Int.add_zero,
        Int.add_zero]
  | succ k ih =>
  have product := @mul_small k ((y0 : Int) - y1) (by omega) (by omega) (by omega) (by omega)
  have next : ((k + 1 : Nat) : Int) * (y0 - y1) = k * (y0 - y1) + (y0 - y1) := by
    push_cast
    ring
  have next' : ((k + 1 : Nat) : Int) * (if (x0 : Int) < x1 then 1 else -1) =
      k * (if (x0 : Int) < x1 then 1 else -1) + (if (x0 : Int) < x1 then 1 else -1) := by
    push_cast
    ring
  have width : -(k : Int) ≤ k * (if (x0 : Int) < x1 then 1 else -1) ∧
      (k : Int) * (if (x0 : Int) < x1 then 1 else -1) ≤ k := by
    split <;> omega
  have size : error < 2 ^ 15 := by
    rw [start]
    split <;> omega
  rw [trace_succ, ih (Nat.le_of_succ_le below), next, next']
  generalize (k : Int) * (y0 - y1) = drift at *
  generalize (k : Int) * (if (x0 : Int) < x1 then 1 else -1) = columns at *
  have column : (y1 : Int) - y0 ≤ 2 * (error + drift) := by omega
  have row : ¬2 * (error + drift) ≤ (x1 : Int) - x0 := by omega
  rw [lineStep_eq small (by dsimp only; omega) (by dsimp only; omega) (by dsimp only; omega)]
  simp only [if_pos column, if_neg row]
  rw [Cursor.mk.injEq]
  omega

end Drift

/-! ## Lines that reach their end -/

namespace GoesWell

variable {x0 y0 x1 y1 k : Nat} (well : GoesWell x0 y0 x1 y1) (small : Small x0 y0 x1 y1)

include well small

/-- Flatly down to the right the column changes in every step, so that the row changes in the last
one only: the error term is negative behind such a step. -/
theorem flat_step (down : y0 < y1) (flat : (y1 : Int) - y0 < x1 - x0)
    (below : k + 1 < lineSteps x0 y0 x1 y1)
    (positive : 0 < (trace x0 y0 x1 y1 k).err)
    (bounded : (trace x0 y0 x1 y1 k).err ≤ (x1 : Int) - x0) :
    (x1 : Int) - x0 < 2 * (trace x0 y0 x1 y1 k).err ∧
      (trace x0 y0 x1 y1 (k + 1)).y = (trace x0 y0 x1 y1 k).y ∧
      (trace x0 y0 x1 y1 (k + 1)).err = (trace x0 y0 x1 y1 k).err - (y1 - y0) ∧
      0 < (trace x0 y0 x1 y1 (k + 1)).err := by
  have wide : lineSteps x0 y0 x1 y1 = ((x1 : Int) - x0).natAbs := by
    rw [lineSteps]
    omega
  have inside := well.cursor_inside small (Nat.le_of_succ_le (Nat.le_of_lt below))
  have column := well.every_column small wide (Nat.lt_of_succ_lt below)
  have next := well.every_column small wide below
  obtain ⟨hx0, hy0, hx1, hy1⟩ := id small
  rw [toS32_of_small (by omega) (by omega)] at column
  rw [trace_succ, lineStep_eq small (by omega) (by omega) (by omega)] at next ⊢
  simp only [if_pos column] at next ⊢
  by_cases row : 2 * (trace x0 y0 x1 y1 k).err ≤ (x1 : Int) - x0
  · rw [if_pos row, toS32_of_small (by omega) (by omega)] at next
    omega
  · rw [if_neg row, toS32_of_small (by omega) (by omega)] at next
    rw [if_neg row, if_neg row]
    omega

theorem flat_run (down : y0 < y1) (flat : (y1 : Int) - y0 < x1 - x0)
    (below : k < lineSteps x0 y0 x1 y1) :
    (trace x0 y0 x1 y1 k).y = y0 ∧
      (trace x0 y0 x1 y1 k).err = (x1 : Int) - x0 - k * (y1 - y0) ∧
      0 < (trace x0 y0 x1 y1 k).err := by
  induction k with
  | zero =>
      rw [trace_zero small, if_pos flat, Int.natCast_zero, Int.zero_mul]
      refine ⟨rfl, ?_, ?_⟩
      · dsimp only
        omega
      · dsimp only
        omega
  | succ k ih =>
  obtain ⟨row, error, positive⟩ := ih (Nat.lt_of_succ_lt below)
  have falls : 0 ≤ (k : Int) * (y1 - y0) := Int.mul_nonneg (by omega) (by omega)
  obtain ⟨-, row', error', positive'⟩ :=
    well.flat_step small down flat below positive (by omega)
  refine ⟨row'.trans row, ?_, positive'⟩
  rw [error', error]
  push_cast
  ring

theorem flat_only (down : y0 < y1) (flat : (y1 : Int) - y0 < x1 - x0) :
    y1 = y0 + 1 ∧ (x1 = x0 + 2 ∨ x1 = x0 + 3) := by
  obtain ⟨steps, count⟩ : ∃ steps, lineSteps x0 y0 x1 y1 = steps + 2 := by
    apply Nat.exists_eq_add_of_le'
    rw [lineSteps]
    omega
  have wide : lineSteps x0 y0 x1 y1 = ((x1 : Int) - x0).natAbs := by
    rw [lineSteps]
    omega
  have ends := (well.ends_at small).2
  have last := (@next_point _ _ _ _ (steps + 1) well small (by omega)).2
  obtain ⟨row, error, positive⟩ := @flat_run _ _ _ _ (steps + 1) well small down flat (by omega)
  rw [count] at ends
  have one : (y1 : Int) - y0 = 1 := by
    rw [row, ends] at last
    split at last
    · rw [if_pos (by omega)] at last
      omega
    · omega
  obtain ⟨row', error', positive'⟩ := @flat_run _ _ _ _ steps well small down flat (by omega)
  have before := (@flat_step _ _ _ _ steps well small down flat (by omega) positive'
    (by rw [error', one]; omega)).1
  rw [error', one] at before
  omega

/-- The lines that reach their end. -/
theorem good_line :
    y1 = y0 ∨ (x1 = x0 ∧ y0 < y1) ∨ (y1 = y0 + 1 ∧ (x1 = x0 + 2 ∨ x1 = x0 + 3)) := by
  have ends := well.ends_at small
  rcases Nat.lt_trichotomy y0 y1 with down | same | up
  · rcases Nat.lt_trichotomy x0 x1 with right | same | left
    · by_cases flat : (y1 : Int) - y0 < x1 - x0
      · exact .inr (.inr (well.flat_only small down flat))
      · have high : lineSteps x0 y0 x1 y1 = y1 - y0 := by
          rw [lineSteps]
          omega
        rw [high, trace_steep small right (by omega) (Nat.le_refl _)] at ends
        dsimp only at ends
        omega
    · exact .inr (.inl ⟨same.symm, down⟩)
    · exact absurd left (well.not_down_left small down)
  · exact .inl same.symm
  · rcases Nat.lt_trichotomy x0 x1 with right | same | left
    · have run := @trace_up _ _ _ _ _ small ((x1 : Int) - x0) up (by rw [if_pos (by omega)])
        (by omega) (by omega) (Nat.le_refl _)
      rw [run] at ends
      dsimp only at ends
      omega
    · exact absurd same.symm (well.not_up small up)
    · have flat := well.not_steep_up_left small left
      have run := @trace_up _ _ _ _ _ small ((y0 : Int) - y1) up (by rw [if_neg flat])
        (by omega) (by omega) (Nat.le_refl _)
      rw [run] at ends
      dsimp only at ends
      omega

end GoesWell

section Good

variable {x0 y0 x1 y1 : Nat} (small : Small x0 y0 x1 y1)

include small

/-- It is enough to know where the cursor is after every number of steps. -/
theorem goesWell_of_places {place : Nat → Int × Int}
    (places : ∀ k ≤ lineSteps x0 y0 x1 y1,
      (trace x0 y0 x1 y1 k).x = (place k).1 ∧ (trace x0 y0 x1 y1 k).y = (place k).2)
    (start : place 0 = ((x0 : Int), (y0 : Int)))
    (finish : ∀ k ≤ lineSteps x0 y0 x1 y1,
      (place k).1 = x1 ∧ (place k).2 = y1 ↔ k = lineSteps x0 y0 x1 y1)
    (inside : ∀ k ≤ lineSteps x0 y0 x1 y1, InBox (x0, y0) (x1, y1) (place k))
    (connected : ∀ k < lineSteps x0 y0 x1 y1, Neighbours (place k) (place (k + 1))) :
    GoesWell x0 y0 x1 y1 := by
  have walks : ∀ k ≤ lineSteps x0 y0 x1 y1, walk x0 y0 x1 y1 k = place k := by
    intro k below
    have column := (inside k below).1
    have row := (inside k below).2
    obtain ⟨hx0, hy0, hx1, hy1⟩ := id small
    dsimp only at column row
    rw [walk, Cursor.point, (places k below).1, (places k below).2, toU32, toU32,
      Int.emod_eq_of_lt (by omega) (by omega), Int.emod_eq_of_lt (by omega) (by omega)]
  have ends : ∀ k ≤ lineSteps x0 y0 x1 y1,
      AtEnd (lineOf x0 y0 x1 y1) (trace x0 y0 x1 y1 k) ↔ k = lineSteps x0 y0 x1 y1 := by
    intro k below
    rw [AtEnd, lineOf_eq small, (places k below).1, (places k below).2]
    exact finish k below
  constructor
  · rw [walks 0 (Nat.zero_le _), start]
  · rw [walks _ (Nat.le_refl _)]
    have last := (finish _ (Nat.le_refl _)).mpr rfl
    exact Prod.ext last.1 last.2
  · constructor
    · exact (ends _ (Nat.le_refl _)).mpr rfl
    · intro k below at_end
      exact Nat.ne_of_lt below ((ends k (Nat.le_of_lt below)).mp at_end)
  · intro k below
    rw [walks k below]
    exact inside k below
  · intro k below
    rw [walks k (Nat.le_of_lt below), walks (k + 1) below]
    exact connected k below

theorem trace_flat {k : Nat} (flat : y1 = y0) (below : k ≤ lineSteps x0 y0 x1 y1) :
    trace x0 y0 x1 y1 k =
      ⟨x0 + k * (if (x0 : Int) < x1 then 1 else -1), y0,
        if (x0 : Int) < x1 then (x1 : Int) - x0 else 0⟩ := by
  subst flat
  obtain ⟨hx0, hy0, hx1, hy1⟩ := id small
  rw [lineSteps] at below
  induction k with
  | zero =>
      rw [trace_zero small, Int.natCast_zero, Int.zero_mul, Int.add_zero, Int.sub_self]
      simp only [Int.sub_pos]
  | succ k ih =>
  have next : ((k + 1 : Nat) : Int) * (if (x0 : Int) < x1 then 1 else -1) =
      k * (if (x0 : Int) < x1 then 1 else -1) + (if (x0 : Int) < x1 then 1 else -1) := by
    push_cast
    ring
  rw [trace_succ, ih (Nat.le_of_succ_le below), next]
  by_cases right : (x0 : Int) < x1
  · simp only [if_pos right]
    rw [lineStep_eq small (by dsimp only; omega) (by dsimp only; omega) (by dsimp only; omega)]
    have column : (y1 : Int) - y1 ≤ 2 * ((x1 : Int) - x0) := by omega
    have row : ¬2 * ((x1 : Int) - x0) ≤ (x1 : Int) - x0 := by omega
    simp only [if_pos right, if_pos column, if_neg row]
    rw [Cursor.mk.injEq]
    omega
  · simp only [if_neg right]
    rw [lineStep_eq small (by dsimp only; omega) (by dsimp only; omega) (by dsimp only; omega)]
    have column : (y1 : Int) - y1 ≤ 2 * 0 := by omega
    have row : ¬2 * 0 ≤ (x1 : Int) - x0 := by omega
    simp only [if_neg right, if_pos column, if_neg row]
    rw [Cursor.mk.injEq]
    omega

theorem trace_down {k : Nat} (upright : x1 = x0) (down : y0 < y1)
    (below : k ≤ lineSteps x0 y0 x1 y1) :
    trace x0 y0 x1 y1 k = ⟨x0, y0 + k, (y0 : Int) - y1⟩ := by
  subst upright
  obtain ⟨hx0, hy0, hx1, hy1⟩ := id small
  rw [lineSteps] at below
  induction k with
  | zero => rw [trace_zero small, if_neg (by omega), Int.natCast_zero, Int.add_zero]
  | succ k ih =>
  rw [trace_succ, ih (Nat.le_of_succ_le below)]
  rw [lineStep_eq small (by dsimp only; omega) (by dsimp only; omega) (by dsimp only; omega)]
  have column : ¬(y1 : Int) - y0 ≤ 2 * ((y0 : Int) - y1) := by omega
  have row : 2 * ((y0 : Int) - y1) ≤ (x1 : Int) - x1 := by omega
  have forward : (y0 : Int) < y1 := by omega
  simp only [if_neg column, if_pos row, if_pos forward]
  rw [Cursor.mk.injEq]
  push_cast
  omega

theorem goesWell_flat (flat : y1 = y0) : GoesWell x0 y0 x1 y1 := by
  apply @goesWell_of_places _ _ _ _ small fun k =>
    ((x0 : Int) + k * (if (x0 : Int) < x1 then 1 else -1), (y0 : Int))
  · intro k below
    rw [trace_flat small flat below]
    exact ⟨rfl, rfl⟩
  · rw [Int.natCast_zero, Int.zero_mul, Int.add_zero]
  · intro k below
    rw [lineSteps] at below ⊢
    dsimp only
    split <;> omega
  · intro k below
    rw [lineSteps] at below
    dsimp only [InBox]
    split <;> omega
  · intro k below
    dsimp only [Neighbours]
    rw [ne_eq, Prod.mk.injEq, abs_le, abs_le]
    split <;> omega

theorem goesWell_down (upright : x1 = x0) (down : y0 < y1) : GoesWell x0 y0 x1 y1 := by
  apply @goesWell_of_places _ _ _ _ small fun k => ((x0 : Int), (y0 : Int) + k)
  · intro k below
    rw [trace_down small upright down below]
    exact ⟨rfl, rfl⟩
  · rw [Int.natCast_zero, Int.add_zero]
  · intro k below
    rw [lineSteps] at below ⊢
    dsimp only
    omega
  · intro k below
    rw [lineSteps] at below
    dsimp only [InBox]
    omega
  · intro k below
    dsimp only [Neighbours]
    rw [ne_eq, Prod.mk.injEq, abs_le, abs_le]
    omega

theorem trace_short {k : Nat} (down : y1 = y0 + 1) (right : x1 = x0 + 2 ∨ x1 = x0 + 3)
    (below : k < x1 - x0) :
    trace x0 y0 x1 y1 k = ⟨x0 + k, y0, (x1 : Int) - x0 - k⟩ := by
  obtain ⟨hx0, hy0, hx1, hy1⟩ := id small
  induction k with
  | zero =>
      rw [trace_zero small, if_pos (by omega), Int.natCast_zero, Int.add_zero, Int.sub_zero]
  | succ k ih =>
  rw [trace_succ, ih (Nat.lt_of_succ_lt below)]
  rw [lineStep_eq small (by dsimp only; omega) (by dsimp only; omega) (by dsimp only; omega)]
  have column : (y1 : Int) - y0 ≤ 2 * ((x1 : Int) - x0 - k) := by omega
  have row : ¬2 * ((x1 : Int) - x0 - k) ≤ (x1 : Int) - x0 := by omega
  have forward : (x0 : Int) < x1 := by omega
  simp only [if_pos column, if_neg row, if_pos forward]
  rw [Cursor.mk.injEq]
  push_cast
  omega

theorem trace_short_last (down : y1 = y0 + 1) (right : x1 = x0 + 2 ∨ x1 = x0 + 3) :
    trace x0 y0 x1 y1 (x1 - x0) = ⟨x0 + (x1 - x0 : Nat), y0 + 1, (x0 : Int) - x1⟩ := by
  obtain ⟨hx0, hy0, hx1, hy1⟩ := id small
  obtain ⟨k, last⟩ : ∃ k, x1 - x0 = k + 1 := Nat.exists_eq_succ_of_ne_zero (by omega)
  rw [last, trace_succ, trace_short small down right (by omega)]
  rw [lineStep_eq small (by dsimp only; omega) (by dsimp only; omega) (by dsimp only; omega)]
  have column : (y1 : Int) - y0 ≤ 2 * ((x1 : Int) - x0 - k) := by omega
  have row : 2 * ((x1 : Int) - x0 - k) ≤ (x1 : Int) - x0 := by omega
  have forward : (x0 : Int) < x1 := by omega
  have below : (y0 : Int) < y1 := by omega
  simp only [if_pos column, if_pos row, if_pos forward, if_pos below]
  rw [Cursor.mk.injEq]
  push_cast
  omega

/-- A line that goes down by one row changes the row in its last step. -/
theorem goesWell_short (down : y1 = y0 + 1) (right : x1 = x0 + 2 ∨ x1 = x0 + 3) :
    GoesWell x0 y0 x1 y1 := by
  have steps : lineSteps x0 y0 x1 y1 = x1 - x0 := by
    rw [lineSteps]
    omega
  apply @goesWell_of_places _ _ _ _ small fun k =>
    ((x0 : Int) + k, if k = x1 - x0 then (y0 : Int) + 1 else y0)
  · intro k below
    rw [steps] at below
    by_cases last : k = x1 - x0
    · rw [last, trace_short_last small down right, if_pos rfl]
      exact ⟨rfl, rfl⟩
    · rw [trace_short small down right (Nat.lt_of_le_of_ne below last), if_neg last]
      exact ⟨rfl, rfl⟩
  · rw [Int.natCast_zero, Int.add_zero, if_neg (by omega)]
  · intro k below
    rw [steps] at below ⊢
    dsimp only
    split <;> omega
  · intro k below
    rw [steps] at below
    dsimp only [InBox]
    split <;> omega
  · intro k below
    rw [steps] at below
    dsimp only [Neighbours]
    rw [ne_eq, Prod.mk.injEq, abs_le, abs_le, if_neg (Nat.ne_of_lt below)]
    split <;> omega

end Good

section Lines

variable {x0 y0 x1 y1 : Nat}

/-- A line is drawn as it should be if and only if it is flat, goes straight down, or goes down by
one row within two or three columns to the right. -/
theorem drawsLine_iff (hx0 : x0 < 2 ^ 15) (hy0 : y0 < 2 ^ 15) (hx1 : x1 < 2 ^ 15)
    (hy1 : y1 < 2 ^ 15) :
    DrawsLine x0 y0 x1 y1 ↔
      y1 = y0 ∨ (x1 = x0 ∧ y0 < y1) ∨ (y1 = y0 + 1 ∧ (x1 = x0 + 2 ∨ x1 = x0 + 3)) := by
  have small : Small x0 y0 x1 y1 := ⟨hx0, hy0, hx1, hy1⟩
  rw [drawsLine_iff_goesWell]
  constructor
  · intro well
    exact well.good_line small
  · rintro (flat | ⟨upright, down⟩ | ⟨down, right⟩)
    · exact goesWell_flat small flat
    · exact goesWell_down small upright down
    · exact goesWell_short small down right

theorem drawsLine_three_columns : DrawsLine 10 10 13 11 :=
  (drawsLine_iff (by decide) (by decide) (by decide) (by decide)).mpr (by decide)

/-- A line down a diagonal goes straight down. -/
theorem diagonal_misses : ¬DrawsLine 0 0 1 1 := by
  intro draws
  have well := drawsLine_iff_goesWell.mp draws
  have good := well.good_line ⟨by decide, by decide, by decide, by decide⟩
  exact absurd good (by decide)

end Lines

end Charis.Graphics
