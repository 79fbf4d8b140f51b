import Charis.Lib.PixelGrid

/-!
# Compositing one surface

`composite_surface` clips a surface to the screen and draws the part that is left.  Before, it has
`apply_material` tint the surface, which gets the clipped corner but takes the size from the
surface again.
-/

namespace Charis.Compositor

open Charis.Lib

/-- The arithmetic of `float`. -/
class FloatArith (F : Type) extends Add F, Sub F, Mul F, Div F where
  ofU32 : UInt32 → F
  toU32 : F → UInt32
  notAbove : F → F → Bool

/-- The fields of `surface_t` that compositing reads or writes, but for the link.  There are
`width * height` pixels. -/
structure Surface (F : Type) where
  pixels : Option (Int → UInt32)
  width : Int
  height : Int
  screenX : Int
  screenY : Int
  tint : UInt32
  tintStrength : F
  zOrder : Int
  visible : Bool
  dirty : Bool

/-- The size of the screen and the back buffer, which has a pixel for each of the screen. -/
structure Screen where
  width : Int
  height : Int
  backBuffer : Int → UInt32

section Colors

variable {F : Type} [FloatArith F]

open FloatArith

def red (px : UInt32) : UInt32 := (px >>> 16) &&& 0xFF

def green (px : UInt32) : UInt32 := (px >>> 8) &&& 0xFF

def blue (px : UInt32) : UInt32 := px &&& 0xFF

/-- A pixel that is not transparent. -/
def opaquePixel (r g b : UInt32) : UInt32 :=
  (0xFF000000 : UInt32) ||| (r <<< 16) ||| (g <<< 8) ||| b

/-- A pixel under the tint of a surface. -/
def Surface.tinted (surf : Surface F) (px : UInt32) : UInt32 :=
  let strength := surf.tintStrength
  let mix (dst src : UInt32) : UInt32 :=
    toU32 (ofU32 dst * ((ofU32 1 : F) - strength) + ofU32 src * strength)
  opaquePixel (mix (red px) (red surf.tint)) (mix (green px) (green surf.tint))
    (mix (blue px) (blue surf.tint))

variable (F) in
/-- A pixel of a surface over one of the back buffer. -/
def blend (src dst : UInt32) : UInt32 :=
  let srcA := (src >>> 24) &&& 0xFF
  if srcA = 0 then dst
  else if srcA = 0xFF then src
  else
    let alpha : F := ofU32 srcA / ofU32 255
    let mix (src dst : UInt32) : UInt32 :=
      toU32 (ofU32 src * alpha + ofU32 dst * ((ofU32 1 : F) - alpha))
    opaquePixel (mix (red src) (red dst)) (mix (green src) (green dst)) (mix (blue src) (blue dst))

end Colors

/-- The part of an extent on the screen: where it starts there, where in the extent that is, and
how long it is. -/
structure Span where
  start : Int
  offset : Int
  length : Int

/-- The clipping of `composite_surface` along one axis. -/
def clip (position extent limit : Int) : Span :=
  let span : Span :=
    if position < 0 then ⟨0, -position, extent + position⟩ else ⟨position, 0, extent⟩
  if span.start + span.length > limit then { span with length := limit - span.start } else span

section Compositing

variable {F : Type} [FloatArith F]

/-- `apply_material`. -/
def applyMaterial (screen : Screen) (surf : Surface F) (x y : Int) : Option Screen :=
  if FloatArith.notAbove surf.tintStrength (FloatArith.ofU32 0) then some screen
  else if x < 0 ∨ y < 0 ∨ x + surf.width > screen.width ∨ y + surf.height > screen.height then
    some screen
  else do
    let backBuffer ←
      changeRect (screen.width * screen.height) (fun _ _ px => some (surf.tinted px))
        screen.backBuffer screen.width x y surf.width.toNat surf.height.toNat
    some { screen with backBuffer }

/-- The loops of `composite_surface` that draw the pixels of a surface. -/
def blit (screen : Screen) (surf : Surface F) (pixels : Int → UInt32) (x y : Span) :
    Option Screen := do
  let backBuffer ←
    changeRect (screen.width * screen.height)
      (fun row col dst => do
        let src ← readPixel (surf.width * surf.height) pixels
          ((y.offset + row) * surf.width + x.offset + col)
        some (blend F src dst))
      screen.backBuffer screen.width x.start y.start x.length.toNat y.length.toNat
  some { screen with backBuffer }

/-- `composite_surface`. -/
def compositeSurface (screen : Screen) (surf : Surface F) (x y : Int) : Option Screen :=
  match surf.pixels with
  | none => some screen
  | some pixels =>
      if surf.visible then
        let xSpan := clip x surf.width screen.width
        let ySpan := clip y surf.height screen.height
        if xSpan.length ≤ 0 ∨ ySpan.length ≤ 0 then some screen
        else do
          let screen ← applyMaterial screen surf xSpan.start ySpan.start
          blit screen surf pixels xSpan ySpan
      else some screen

end Compositing

/-- The pixel of the back buffer in a column and a row. -/
def Screen.at (screen : Screen) (px py : Int) : UInt32 :=
  screen.backBuffer (py * screen.width + px)

/-- A point lies in an extent. -/
def InExtent (position extent p : Int) : Prop := position ≤ p ∧ p < position + extent

/-- A point lies in the rectangle of a surface at a position. -/
def Surface.Covers {F : Type} (surf : Surface F) (x y px py : Int) : Prop :=
  InExtent x surf.width px ∧ InExtent y surf.height py

/-- A column of the screen, in any row. -/
def Screen.Column (screen : Screen) (px : Int) : Prop := 0 ≤ px ∧ px < screen.width

/-- Only pixels of the screen in the rectangle of a surface differ. -/
def ChangesInside {F : Type} (surf : Surface F) (x y : Int) (screen screen' : Screen) : Prop :=
  ∀ px py, screen.Column px →
    ¬ (surf.Covers x y px py ∧ InExtent 0 screen.height py) →
    screen'.at px py = screen.at px py

variable {position extent limit : Int}

theorem clip_eq :
    clip position extent limit =
      ⟨max position 0, max (-position) 0,
        min (position + extent) limit - max position 0⟩ := by
  simp only [clip]
  by_cases outside : position < 0
  · simp only [if_pos outside]
    split
    · simp only [Span.mk.injEq]
      omega
    · simp only [Span.mk.injEq]
      omega
  · simp only [if_neg outside]
    split
    · simp only [Span.mk.injEq]
      omega
    · simp only [Span.mk.injEq]
      omega

variable {F : Type} [FloatArith F] {screen : Screen} {surf : Surface F} {x y : Int}

/-- The rows of a part of the screen lie in the buffer. -/
theorem rows_fit {row : Int} (wide : 0 ≤ screen.width) (inside : row ≤ screen.height) :
    row * screen.width ≤ screen.width * screen.height := by
  rw [Int.mul_comm screen.width]
  exact Int.mul_le_mul_of_nonneg_right inside wide

/-- `apply_material` changes the pixels of the screen. -/
def Surface.Tints (surf : Surface F) (screen : Screen) (x y : Int) : Prop :=
  FloatArith.notAbove surf.tintStrength (FloatArith.ofU32 0) = false ∧
    0 ≤ x ∧ 0 ≤ y ∧ x + surf.width ≤ screen.width ∧ y + surf.height ≤ screen.height

/-- The tint changes the pixels of a rectangle of the size of the surface. -/
theorem applyMaterial_spec (wide : 0 < surf.width) (high : 0 < surf.height) (x y : Int) :
    ∃ screen', applyMaterial screen surf x y = some screen' ∧
      screen'.width = screen.width ∧ screen'.height = screen.height ∧
      ∀ px py, screen.Column px →
        (surf.Tints screen x y ∧ surf.Covers x y px py →
          screen'.at px py = surf.tinted (screen.at px py)) ∧
        (¬ (surf.Tints screen x y ∧ surf.Covers x y px py) →
          screen'.at px py = screen.at px py) := by
  by_cases weak : FloatArith.notAbove surf.tintStrength (FloatArith.ofU32 0)
  · refine ⟨screen, if_pos weak, rfl, rfl, ?_⟩
    intro px py _
    constructor
    · rintro ⟨⟨strong, -⟩, -⟩
      rw [weak] at strong
      cases strong
    · intro _
      rfl
  by_cases outside : x < 0 ∨ y < 0 ∨ x + surf.width > screen.width ∨
      y + surf.height > screen.height
  · refine ⟨screen, ?_, rfl, rfl, ?_⟩
    · rw [applyMaterial, if_neg weak, if_pos outside]
    · intro px py _
      constructor
      · rintro ⟨⟨-, left, top, right, bottom⟩, -⟩
        omega
      · intro _
        rfl
  have inside : surf.Tints screen x y :=
    ⟨Bool.eq_false_iff.mpr weak, by omega, by omega, by omega, by omega⟩
  have left : 0 ≤ x := inside.2.1
  have top : 0 ≤ y := inside.2.2.1
  have right : x + surf.width.toNat ≤ screen.width := by omega
  have bottom : (y + surf.height.toNat) * screen.width ≤ screen.width * screen.height :=
    rows_fit (by omega) (by omega)
  have defined : ∀ row < surf.height.toNat, ∀ col < surf.width.toNat, ∀ px,
      some (surf.tinted px) = some (surf.tinted px) := fun _ _ _ _ _ => rfl
  obtain ⟨cells', changed, value⟩ :=
    changeRect_of_inside screen.backBuffer defined left right top bottom
  refine ⟨{ screen with backBuffer := cells' }, ?_, rfl, rfl, ?_⟩
  · rw [applyMaterial, if_neg weak, if_neg outside, changed]
    rfl
  intro px py column
  have covers : surf.Covers x y px py ↔ x ≤ px ∧ px < x + surf.width.toNat ∧ y ≤ py ∧
      py < y + surf.height.toNat := by
    simp only [Surface.Covers, InExtent]
    omega
  have here : { screen with backBuffer := cells' }.at px py = _ :=
    value px py column.1 column.2
  rw [here]
  constructor
  · intro covered
    rw [if_pos (covers.mp covered.2)]
    rfl
  · intro uncovered
    rw [if_neg fun covered => uncovered ⟨inside, covers.mpr covered⟩]
    rfl

/-- The part of a surface on the screen. -/
def Surface.Meets {F : Type} (surf : Surface F) (screen : Screen) (x y : Int) : Prop :=
  0 < x + surf.width ∧ max x 0 < screen.width ∧ 0 < y + surf.height ∧ max y 0 < screen.height

/-- The pixels of a surface are read where they are, and change the screen under them only. -/
theorem blit_spec (pixels : Int → UInt32) (wide : 0 < surf.width)
    (meets : surf.Meets screen x y) :
    ∃ screen', blit screen surf pixels (clip x surf.width screen.width)
        (clip y surf.height screen.height) = some screen' ∧
      screen'.width = screen.width ∧ ChangesInside surf x y screen screen' := by
  obtain ⟨right, left, below, above⟩ := meets
  let index (row col : Nat) : Int :=
    (max (-y) 0 + row) * surf.width + max (-x) 0 + col
  have defined : ∀ row < (min (y + surf.height) screen.height - max y 0).toNat,
      ∀ col < (min (x + surf.width) screen.width - max x 0).toNat, ∀ dst,
        (readPixel (surf.width * surf.height) pixels (index row col)).bind
            (fun src => some (blend F src dst)) =
          some (blend F (pixels (index row col)) dst) := by
    intro row rowLess col colLess dst
    have rowInside : max (-y) 0 + row + 1 ≤ surf.height := by omega
    have colInside : max (-x) 0 + col + 1 ≤ surf.width := by omega
    have first : 0 ≤ (max (-y) 0 + row) * surf.width :=
      Int.mul_nonneg (by omega) wide.le
    have last : (max (-y) 0 + row + 1) * surf.width ≤ surf.height * surf.width :=
      Int.mul_le_mul_of_nonneg_right rowInside wide.le
    rw [Int.add_mul, Int.one_mul, Int.mul_comm surf.height] at last
    have start : 0 ≤ index row col := by
      change 0 ≤ (max (-y) 0 + row) * surf.width + max (-x) 0 + col
      omega
    have stop : index row col < surf.width * surf.height := by
      change (max (-y) 0 + row) * surf.width + max (-x) 0 + col < _
      omega
    rw [readPixel_of_inside pixels start stop, Option.bind_some]
  have room : max x 0 + (min (x + surf.width) screen.width - max x 0).toNat ≤ screen.width := by
    omega
  have bottom : (max y 0 + (min (y + surf.height) screen.height - max y 0).toNat) *
      screen.width ≤ screen.width * screen.height :=
    rows_fit (by omega) (by omega)
  obtain ⟨cells', changed, value⟩ :=
    changeRect_of_inside screen.backBuffer defined (le_max_right x 0) room (le_max_right y 0)
      bottom
  refine ⟨{ screen with backBuffer := cells' }, ?_, rfl, ?_⟩
  · rw [blit, clip_eq, clip_eq]
    simp only [Option.bind_eq_bind]
    rw [changed, Option.bind_some]
  · intro px py column uncovered
    have here : { screen with backBuffer := cells' }.at px py = _ :=
      value px py column.1 column.2
    rw [here, if_neg]
    · rfl
    · intro inside
      apply uncovered
      simp only [Surface.Covers, InExtent]
      omega

/-- A surface that is tinted beyond its rectangle: it reaches beyond the left or the upper edge of
the screen, and from there its size fits on the screen. -/
def Surface.Overhangs (surf : Surface F) (screen : Screen) (x y : Int) : Prop :=
  surf.pixels.isSome ∧ surf.visible ∧ surf.Meets screen x y ∧ (x < 0 ∨ y < 0) ∧
    surf.Tints screen (max x 0) (max y 0)

/-- The points that are tinted outside the rectangle of a surface. -/
def Surface.Beyond {F : Type} (surf : Surface F) (x y px py : Int) : Prop :=
  surf.Covers (max x 0) (max y 0) px py ∧ ¬ surf.Covers x y px py

/-- The tint leaves the rectangle only if the surface overhangs. -/
theorem overhangs_of_beyond {px py : Int} (pixels : surf.pixels.isSome) (visible : surf.visible)
    (meets : surf.Meets screen x y) (tints : surf.Tints screen (max x 0) (max y 0))
    (beyond : surf.Beyond x y px py) : surf.Overhangs screen x y := by
  refine ⟨pixels, visible, meets, ?_, tints⟩
  obtain ⟨covers, outside⟩ := beyond
  by_contra within
  apply outside
  rw [max_eq_left (by omega), max_eq_left (by omega)] at covers
  exact covers

/-- Compositing a surface of positive size reads its own pixels only, and it changes nothing but the
screen under it exactly when the surface does not overhang or the tint leaves the pixels beyond as
they are. -/
theorem composite_inside_iff (screen : Screen) (surf : Surface F) (x y : Int)
    (wide : 0 < surf.width) (high : 0 < surf.height) :
    ∃ screen', compositeSurface screen surf x y = some screen' ∧
      (ChangesInside surf x y screen screen' ↔
        (surf.Overhangs screen x y → ∀ px py, surf.Beyond x y px py →
          surf.tinted (screen.at px py) = screen.at px py)) := by
  have unchanged (none : ¬ surf.Overhangs screen x y) :
      ChangesInside surf x y screen screen ↔
        (surf.Overhangs screen x y → ∀ px py, surf.Beyond x y px py →
          surf.tinted (screen.at px py) = screen.at px py) := by
    constructor
    · intro _ overhangs
      exact absurd overhangs none
    · intro _ px py _ _
      rfl
  cases pixels : surf.pixels with
  | none =>
      refine ⟨screen, ?_, unchanged ?_⟩
      · rw [compositeSurface, pixels]
      · intro overhangs
        have some := overhangs.1
        rw [pixels] at some
        cases some
  | some cells =>
  by_cases visible : surf.visible
  swap
  · refine ⟨screen, ?_, unchanged ?_⟩
    · simp only [compositeSurface, pixels, if_neg visible]
    · intro overhangs
      exact visible overhangs.2.1
  by_cases meets : surf.Meets screen x y
  swap
  · refine ⟨screen, ?_, unchanged ?_⟩
    · simp only [compositeSurface, pixels, if_pos visible, clip_eq]
      apply if_pos
      simp only [Surface.Meets] at meets
      omega
    · intro overhangs
      exact meets overhangs.2.2.1
  have parts : ¬ (min (x + surf.width) screen.width - max x 0 ≤ 0 ∨
      min (y + surf.height) screen.height - max y 0 ≤ 0) := by
    obtain ⟨right, left, below, above⟩ := meets
    omega
  obtain ⟨screen₁, tinted, width₁, height₁, values⟩ :=
    applyMaterial_spec wide high (max x 0) (max y 0)
  have meets₁ : surf.Meets screen₁ x y := by
    rw [Surface.Meets, width₁, height₁]
    exact meets
  obtain ⟨screen', drawn, width', inside⟩ := blit_spec cells wide meets₁
  refine ⟨screen', ?_, ?_⟩
  · rw [width₁, height₁, clip_eq, clip_eq] at drawn
    simp only [compositeSurface, pixels, if_pos visible, clip_eq, if_neg parts, tinted, drawn,
      Option.bind_eq_bind, Option.bind_some]
  -- What is drawn outside the rectangle is what the tint has left there.
  have outside : ∀ px py, screen.Column px →
      ¬ (surf.Covers x y px py ∧ InExtent 0 screen.height py) →
      screen'.at px py = screen₁.at px py := by
    intro px py column uncovered
    apply inside px py
    · rw [Screen.Column, width₁]
      exact column
    · rw [height₁]
      exact uncovered
  constructor
  · intro changes overhangs px py beyond
    obtain ⟨left, top, right, bottom⟩ := overhangs.2.2.2.2.2
    have column : screen.Column px := by
      obtain ⟨⟨⟨first, last⟩, -⟩, -⟩ := beyond
      exact ⟨by omega, by omega⟩
    have uncovered : ¬ (surf.Covers x y px py ∧ InExtent 0 screen.height py) :=
      fun covered => beyond.2 covered.1
    rw [← (values px py column).1 ⟨overhangs.2.2.2.2, beyond.1⟩, ← outside px py column uncovered]
    exact changes px py column uncovered
  intro fixed px py column uncovered
  rw [outside px py column uncovered]
  by_cases covered : surf.Tints screen (max x 0) (max y 0) ∧
      surf.Covers (max x 0) (max y 0) px py
  · rw [(values px py column).1 covered]
    have beyond : surf.Beyond x y px py := by
      refine ⟨covered.2, ?_⟩
      intro within
      apply uncovered
      refine ⟨within, ?_⟩
      obtain ⟨⟨-, left, top, right, bottom⟩, -, first, last⟩ := covered
      exact ⟨by omega, by omega⟩
    have overhangs : surf.Overhangs screen x y :=
      overhangs_of_beyond (pixels ▸ rfl) visible meets covered.1 beyond
    exact fixed overhangs px py beyond
  · exact (values px py column).2 covered

/-- Arithmetic without rounding. -/
instance : FloatArith ℚ where
  ofU32 n := n.toNat
  toU32 q := UInt32.ofNat q.floor.toNat
  notAbove a b := decide (a ≤ b)

/-- Two white pixels. -/
def whiteSurface : Surface ℚ where
  pixels := some fun _ => 0xFFFFFFFF
  width := 2
  height := 1
  screenX := -1
  screenY := 0
  tint := 0xFFFFFFFF
  tintStrength := 1
  zOrder := 0
  visible := true
  dirty := true

def blackScreen : Screen where
  width := 4
  height := 1
  backBuffer := fun _ => 0

/-- One column of the surface is on the screen, and two are tinted. -/
theorem composite_leaves_rectangle :
    ∃ screen', compositeSurface blackScreen whiteSurface (-1) 0 = some screen' ∧
      ¬ ChangesInside whiteSurface (-1) 0 blackScreen screen' := by
  have second : (compositeSurface blackScreen whiteSurface (-1) 0).map (·.at 1 0) =
      some 0xFFFFFFFF := by
    decide +kernel
  obtain ⟨screen', composited, white⟩ := Option.map_eq_some_iff.mp second
  refine ⟨screen', composited, ?_⟩
  intro inside
  have black := inside 1 0 ⟨by decide, by decide⟩ (by simp [Surface.Covers, InExtent, whiteSurface])
  rw [white] at black
  exact absurd black (by decide)

theorem composite_inside_iff_white :
    ∃ screen', compositeSurface blackScreen whiteSurface (-1) 0 = some screen' ∧
      (ChangesInside whiteSurface (-1) 0 blackScreen screen' ↔
        (whiteSurface.Overhangs blackScreen (-1) 0 → ∀ px py, whiteSurface.Beyond (-1) 0 px py →
          whiteSurface.tinted (blackScreen.at px py) = blackScreen.at px py)) :=
  composite_inside_iff blackScreen whiteSurface (-1) 0 (by decide) (by decide)

end Charis.Compositor
