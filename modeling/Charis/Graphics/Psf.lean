import Charis.Boot.Framebuffer
import Charis.Lib.Stores

/-!
# Text on the framebuffer

The glyphs of a font are drawn dot by dot, either through the driver of the framebuffer or
directly into a buffer of pixels.
-/

namespace Charis.Graphics

open Charis.Lib Charis.Boot

/-- `PSF_MAGIC`. -/
abbrev psfMagic : Nat := 0x864AB572

/-- `sizeof(psf2_header_t)`. -/
abbrev psfHeaderSize : Nat := 32

/-- A font file, from its header on. -/
abbrev Font := ByteMemory

namespace Font

variable (font : Font)

def magic : Nat := font.readLE 0 4
def headersize : Nat := font.readLE 8 4
def numglyph : Nat := font.readLE 16 4
def bytesperglyph : Nat := font.readLE 20 4
def height : Nat := font.readLE 24 4
def width : Nat := font.readLE 28 4

/-- Whether a dot of the glyph of a character is set. -/
def pixelOn (c : UInt8) (row col : Nat) : Bool :=
  let bytesPerRow := (font.width + 7) / 8
  let glyphOffset := (c.toNat - 32) * font.bytesperglyph % 2 ^ 32
  let byteIdx := (row * bytesPerRow + col / 8) % 2 ^ 32
  (font (font.headersize + (glyphOffset + byteIdx) % 2 ^ 32)).toNat.testBit (7 - col % 8)

/-- The character has a glyph that is drawn. -/
def Printable (c : UInt8) : Prop :=
  ¬ (c.toNat < 32 ∨ 127 < c.toNat) ∧ ¬ font.numglyph ≤ c.toNat - 32

instance (c : UInt8) : Decidable (font.Printable c) := inferInstanceAs (Decidable (_ ∧ _))

/-- The loops over the dots of a glyph. -/
def drawGlyph (c : UInt8) (put : Nat → Nat → Bool → ByteMemory → ByteMemory)
    (memory : ByteMemory) : ByteMemory :=
  (List.range font.height).foldl
    (fun memory row =>
      (List.range font.width).foldl
        (fun memory col => put row col (font.pixelOn c row col) memory) memory) memory

end Font

/-- `psf_load`, for a pointer that is `NULL` or leads to a file: its result and the font that is
loaded afterwards. -/
def psfLoad (data loaded : Option Font) : Int × Option Font :=
  match data with
  | none => (-1, loaded)
  | some font =>
      if font.magic ≠ psfMagic then (-1, loaded)
      else
        let rowBytes := (font.width + 7) / 8
        let minimumGlyphBytes := rowBytes * font.height
        if font.headersize < psfHeaderSize ∨ font.numglyph = 0 ∨ font.bytesperglyph = 0 ∨
            font.width = 0 ∨ font.height = 0 ∨ 64 < font.width ∨ 64 < font.height ∨
            font.bytesperglyph < minimumGlyphBytes ∨
            (2 ^ 32 - 1 - font.headersize) / font.bytesperglyph < font.numglyph then
          (-1, loaded)
        else (0, some font)

/-- `psf_draw_char`. -/
def psfDrawChar (fb : Framebuffer) (font : Option Font) (memory : ByteMemory) (x y : Nat)
    (c : UInt8) (fg bg : Nat) : ByteMemory :=
  match font with
  | none => memory
  | some font =>
      if fb.initialized = false then memory
      else if ¬ font.Printable c then memory
      else
        font.drawGlyph c (fun row col pixelOn memory =>
          fbPutPixel fb memory ((x + col) % 2 ^ 32) ((y + row) % 2 ^ 32)
            (if pixelOn then fg else bg)) memory

/-- `psf_draw_char_buffer`, for a buffer at some address. -/
def psfDrawCharBuffer (fb : Framebuffer) (font : Option Font) (memory : ByteMemory) (x y : Nat)
    (c : UInt8) (fg bg buffer bufWidth : Nat) : ByteMemory :=
  match font with
  | none => memory
  | some font =>
      if bufWidth = 0 then memory
      else if ¬ font.Printable c then memory
      else if bufWidth ≤ x ∨ fb.height ≤ y then memory
      else
        font.drawGlyph c (fun row col pixelOn memory =>
          if col < bufWidth - x ∧ row < fb.height - y then
            let pixelIndex := (y + row) % 2 ^ 32 * bufWidth + (x + col) % 2 ^ 32
            if pixelIndex < bufWidth * fb.height then
              memory.writeLE (buffer + 4 * pixelIndex) 4 (if pixelOn then fg else bg)
            else memory
          else memory) memory

/-- The loop over a string, from its character number `i` on. -/
def drawLoop (width limit x : Nat) (draw : Nat → UInt8 → ByteMemory → ByteMemory) :
    Nat → List UInt8 → ByteMemory → ByteMemory
  | _, [], memory => memory
  | i, c :: str, memory =>
      if c = 0 then memory
      else
        let drawX := x + i * width
        if limit ≤ drawX then memory
        else drawLoop width limit x draw (i + 1) str (draw (drawX % 2 ^ 32) c memory)

/-- `psf_draw_string_buffer`. -/
def psfDrawStringBuffer (fb : Framebuffer) (font : Option Font) (memory : ByteMemory)
    (x y : Nat) (str : List UInt8) (fg bg buffer bufWidth : Nat) : ByteMemory :=
  match font with
  | none => memory
  | some header =>
      if bufWidth = 0 then memory
      else
        drawLoop header.width bufWidth x
          (fun drawX c memory =>
            psfDrawCharBuffer fb font memory drawX y c fg bg buffer bufWidth) 0 str memory

/-- The characters of a string, drawn one by one with `psf_draw_char`. -/
def psfDrawChars (fb : Framebuffer) (font : Option Font) (memory : ByteMemory) (x y : Nat)
    (str : List UInt8) (fg bg : Nat) : ByteMemory :=
  match font with
  | none => memory
  | some header =>
      drawLoop header.width fb.width x
        (fun drawX c memory => psfDrawChar fb font memory drawX y c fg bg) 0 str memory

/-- `psf_draw_string`. -/
def psfDrawString (fb : Framebuffer) (font : Option Font) (memory : ByteMemory) (x y : Nat)
    (str : List UInt8) (fg bg : Nat) : ByteMemory :=
  if font = none ∨ fb.initialized = false then memory
  else
    match fb.pixels with
    | none => psfDrawChars fb font memory x y str fg bg
    | some pixels => psfDrawStringBuffer fb font memory x y str fg bg pixels fb.width

end Charis.Graphics
