import Charis.Boot.Framebuffer
import Charis.Lib.BitFields

/-!
# Packing and unpacking colours

The masks of the driver are those of three components.  Colours that are packed can be unpacked
again when the components do not overlap.  The driver refuses positions that are equal, but not
positions that are so close that the components overlap.
-/

namespace Charis.Boot

open Charis.Lib

/-- `FB_ARGB`. -/
def fbArgb (a r g b : Nat) : Nat :=
  (a % 2 ^ 8) <<< 24 ||| (r % 2 ^ 8) <<< 16 ||| (g % 2 ^ 8) <<< 8 ||| b % 2 ^ 8

/-- A component of `fb_unpack`. -/
def unpackChannel (native mask pos : Nat) : Nat :=
  let bits := maskBits mask
  if bits = 0 then 0 else ((native &&& mask) >>> pos * 255) % 2 ^ 32 / (2 ^ bits - 1)

/-- `fb_unpack`. -/
def fbUnpack (fb : Framebuffer) (native : Nat) : Nat :=
  if fb.initialized = false then 0
  else
    fbArgb 0xFF (unpackChannel native fb.redMask fb.redPos)
      (unpackChannel native fb.greenMask fb.greenPos) (unpackChannel native fb.blueMask fb.bluePos)

/-- The red, green and blue of a colour. -/
def rgb (argb : Nat) : Nat × Nat × Nat :=
  (argb / 2 ^ 16 % 2 ^ 8, argb / 2 ^ 8 % 2 ^ 8, argb % 2 ^ 8)

/-- The masks have no bit in common and lie in the pixel, and colours come through packing and
unpacking: every colour when a component has all of its bits, and every pixel otherwise. -/
structure KeepsColours (fb : Framebuffer) : Prop where
  redGreen : fb.redMask &&& fb.greenMask = 0
  greenBlue : fb.greenMask &&& fb.blueMask = 0
  redBlue : fb.redMask &&& fb.blueMask = 0
  red : fb.redMask < 2 ^ fb.bpp
  green : fb.greenMask < 2 ^ fb.bpp
  blue : fb.blueMask < 2 ^ fb.bpp
  colours : fb.bpp = 24 ∨ fb.bpp = 32 → ∀ argb, rgb (fbUnpack fb (fbPack fb argb)) = rgb argb
  pixels : fb.bpp = 16 → ∀ native,
    native &&& (fb.redMask ||| fb.greenMask ||| fb.blueMask) = native →
      fbPack fb (fbUnpack fb native) = native

/-- No two components of a layout overlap. -/
def Layout.Separate (layout : Layout) : Prop :=
  Apart layout.red layout.redBits layout.green layout.greenBits ∧
    Apart layout.green layout.greenBits layout.blue layout.blueBits ∧
    Apart layout.red layout.redBits layout.blue layout.blueBits

instance (first firstBits second secondBits : Nat) :
    Decidable (Apart first firstBits second secondBits) :=
  inferInstanceAs (Decidable (_ ∨ _))

theorem Apart.symm {first firstBits second secondBits : Nat}
    (apart : Apart first firstBits second secondBits) :
    Apart second secondBits first firstBits :=
  Or.symm apart

theorem rgb_fbArgb (a r g b : Nat) :
    rgb (fbArgb a r g b) = (r % 2 ^ 8, g % 2 ^ 8, b % 2 ^ 8) := by
  have ha : a % 2 ^ 8 < 2 ^ 8 := Nat.mod_lt _ (by decide)
  have hr : r % 2 ^ 8 < 2 ^ 8 := Nat.mod_lt _ (by decide)
  have hg : g % 2 ^ 8 < 2 ^ 8 := Nat.mod_lt _ (by decide)
  have hb : b % 2 ^ 8 < 2 ^ 8 := Nat.mod_lt _ (by decide)
  have sum : fbArgb a r g b =
      ((a % 2 ^ 8 * 2 ^ 8 + r % 2 ^ 8) * 2 ^ 8 + g % 2 ^ 8) * 2 ^ 8 + b % 2 ^ 8 := by
    simp only [← Nat.shiftLeft_eq]
    rw [Nat.shiftLeft_add_eq_or_of_lt hr, Nat.shiftLeft_add_eq_or_of_lt hg,
      Nat.shiftLeft_add_eq_or_of_lt hb]
    simp only [fbArgb, Nat.shiftLeft_or_distrib, ← Nat.shiftLeft_add]
  rw [rgb, sum, Prod.mk.injEq, Prod.mk.injEq]
  omega

theorem unpackChannel_eq {native pos bits : Nat} (filled : 0 < bits ∧ bits ≤ 8)
    (fits : pos + bits ≤ 32) :
    unpackChannel native (fieldMask pos bits) pos =
      (native &&& fieldMask pos bits) >>> pos * 255 / (2 ^ bits - 1) := by
  have bound := field_lt pos bits native
  have byte : 2 ^ bits ≤ 2 ^ 8 := Nat.pow_le_pow_right Nat.two_pos filled.2
  rw [unpackChannel, fieldMask, maskBits_component filled.1 fits, ← fieldMask,
    if_neg (Nat.ne_of_gt filled.1), Nat.mod_eq_of_lt (by omega)]

theorem scaleChannel_eight {value : Nat} (byte : value < 2 ^ 8) : scaleChannel value 8 = value := by
  rw [scaleChannel, if_neg (by decide), if_pos (Nat.le_refl 8), Nat.sub_self, Nat.shiftLeft_zero,
    Nat.mod_eq_of_lt (by omega)]

/-- The rounding of a narrow component undoes the division that widens it. -/
theorem scaleChannel_widened {value bits : Nat} (narrow : bits = 5 ∨ bits = 6)
    (small : value < 2 ^ bits) :
    scaleChannel (value * 255 / (2 ^ bits - 1) % 2 ^ 8) bits = value := by
  cases narrow with
  | inl five =>
      subst five
      have every : ∀ value < 2 ^ 5,
          scaleChannel (value * 255 / (2 ^ 5 - 1) % 2 ^ 8) 5 = value := by decide
      exact every value small
  | inr six =>
      subst six
      have every : ∀ value < 2 ^ 6,
          scaleChannel (value * 255 / (2 ^ 6 - 1) % 2 ^ 8) 6 = value := by decide
      exact every value small

section Layouts

variable {layout : Layout} {fb : Framebuffer}

/-- The masks of a framebuffer are those of a layout with the usual widths. -/
structure HasLayout (fb : Framebuffer) (layout : Layout) : Prop where
  fits : layout.Fits fb.bpp
  initialized : fb.initialized = true
  positions : (fb.redPos, fb.greenPos, fb.bluePos) = layout.positions
  masks : (fb.redMask, fb.greenMask, fb.blueMask) = layout.masks
  widths : (layout.redBits, layout.greenBits, layout.blueBits) = componentBits fb.bpp

variable (has : HasLayout fb layout)

include has

theorem HasLayout.fields :
    fb.redMask = fieldMask layout.red layout.redBits ∧
      fb.greenMask = fieldMask layout.green layout.greenBits ∧
      fb.blueMask = fieldMask layout.blue layout.blueBits := by
  have masks := has.masks
  simp only [Layout.masks, Prod.mk.injEq] at masks
  exact masks

theorem HasLayout.places :
    fb.redPos = layout.red ∧ fb.greenPos = layout.green ∧ fb.bluePos = layout.blue := by
  have positions := has.positions
  simp only [Layout.positions, Prod.mk.injEq] at positions
  exact positions

theorem fbUnpack_eq (native : Nat) :
    fbUnpack fb native =
      fbArgb 0xFF
        ((native &&& fieldMask layout.red layout.redBits) >>> layout.red * 255 /
          (2 ^ layout.redBits - 1))
        ((native &&& fieldMask layout.green layout.greenBits) >>> layout.green * 255 /
          (2 ^ layout.greenBits - 1))
        ((native &&& fieldMask layout.blue layout.blueBits) >>> layout.blue * 255 /
          (2 ^ layout.blueBits - 1)) := by
  obtain ⟨redBits, greenBits, blueBits, red, green, blue, depth⟩ := has.fits
  obtain ⟨redPos, greenPos, bluePos⟩ := has.places
  obtain ⟨redMask, greenMask, blueMask⟩ := has.fields
  rw [fbUnpack, if_neg (by rw [has.initialized]; decide), redPos, greenPos, bluePos, redMask,
    greenMask, blueMask, unpackChannel_eq redBits (by omega), unpackChannel_eq greenBits (by omega),
    unpackChannel_eq blueBits (by omega)]

/-- Colours with components of eight bits come through. -/
theorem rgb_fbUnpack_fbPack (separate : layout.Separate) (wide : fb.bpp ≠ 16) (argb : Nat) :
    rgb (fbUnpack fb (fbPack fb argb)) = rgb argb := by
  have widths := has.widths
  rw [componentBits, if_neg wide] at widths
  simp only [Prod.mk.injEq] at widths
  obtain ⟨redBits, greenBits, blueBits⟩ := widths
  obtain ⟨redGreen, greenBlue, redBlue⟩ := separate
  rw [redBits, greenBits] at redGreen
  rw [greenBits, blueBits] at greenBlue
  rw [redBits, blueBits] at redBlue
  have byte : ∀ value : Nat, value % 2 ^ 8 < 2 ^ 8 := fun value => Nat.mod_lt _ (by decide)
  have packed := (fbPack_eq_pixel has.fits has.initialized has.positions has.masks argb).1
  rw [Layout.pixel, redBits, greenBits, blueBits, scaleChannel_eight (byte _),
    scaleChannel_eight (byte _), scaleChannel_eight (byte _)] at packed
  have red := read_first (byte (argb / 2 ^ 16)) (byte (argb / 2 ^ 8)) (byte argb)
    redGreen.symm redBlue.symm
  have green := read_first (byte (argb / 2 ^ 8)) (byte (argb / 2 ^ 16)) (byte argb)
    redGreen greenBlue.symm
  have blue := read_first (byte argb) (byte (argb / 2 ^ 16)) (byte (argb / 2 ^ 8))
    redBlue greenBlue
  have blue_last : ∀ r g b : Nat, b ||| r ||| g = r ||| g ||| b := by
    intro r g b
    rw [Nat.or_assoc, Nat.or_comm]
  rw [Nat.or_comm (_ <<< layout.green)] at green
  rw [blue_last] at blue
  have exact_byte : ∀ value : Nat, value * 255 / (2 ^ 8 - 1) = value := by
    intro value
    exact Nat.mul_div_cancel value (by decide)
  rw [fbUnpack_eq has, packed, redBits, greenBits, blueBits, red, green, blue, exact_byte,
    exact_byte, exact_byte, rgb_fbArgb, rgb]
  simp only [Nat.mod_mod]

/-- The native values of narrow components come through. -/
theorem fbPack_fbUnpack (narrow : fb.bpp = 16) {native : Nat}
    (within : native &&& (fb.redMask ||| fb.greenMask ||| fb.blueMask) = native) :
    fbPack fb (fbUnpack fb native) = native := by
  have widths := has.widths
  rw [componentBits, if_pos narrow] at widths
  simp only [Prod.mk.injEq] at widths
  obtain ⟨redBits, greenBits, blueBits⟩ := widths
  obtain ⟨redMask, greenMask, blueMask⟩ := has.fields
  have packed := (fbPack_eq_pixel has.fits has.initialized has.positions has.masks
    (fbUnpack fb native)).1
  have channels := congrArg rgb (fbUnpack_eq has native)
  rw [rgb_fbArgb, rgb, Prod.mk.injEq, Prod.mk.injEq] at channels
  obtain ⟨red, green, blue⟩ := channels
  rw [Layout.pixel, red, green, blue, redBits, greenBits, blueBits,
    scaleChannel_widened (.inl rfl) (field_lt _ _ _),
    scaleChannel_widened (.inr rfl) (field_lt _ _ _),
    scaleChannel_widened (.inl rfl) (field_lt _ _ _), field_shiftLeft, field_shiftLeft,
    field_shiftLeft] at packed
  rw [redMask, greenMask, blueMask, redBits, greenBits, blueBits, Nat.and_or_distrib_left,
    Nat.and_or_distrib_left] at within
  exact packed.trans within

/-- Colours are kept if and only if no two components overlap. -/
theorem HasLayout.keepsColours_iff :
    KeepsColours fb ↔ layout.Separate := by
  obtain ⟨redBits, greenBits, blueBits, red, green, blue, -⟩ := has.fits
  obtain ⟨redMask, greenMask, blueMask⟩ := has.fields
  constructor
  · intro keeps
    have redGreen := keeps.redGreen
    have greenBlue := keeps.greenBlue
    have redBlue := keeps.redBlue
    rw [redMask, greenMask, fieldMask_and_eq_zero redBits.1 greenBits.1] at redGreen
    rw [greenMask, blueMask, fieldMask_and_eq_zero greenBits.1 blueBits.1] at greenBlue
    rw [redMask, blueMask, fieldMask_and_eq_zero redBits.1 blueBits.1] at redBlue
    exact ⟨redGreen, greenBlue, redBlue⟩
  intro separate
  constructor
  · rw [redMask, greenMask, fieldMask_and_eq_zero redBits.1 greenBits.1]
    exact separate.1
  · rw [greenMask, blueMask, fieldMask_and_eq_zero greenBits.1 blueBits.1]
    exact separate.2.1
  · rw [redMask, blueMask, fieldMask_and_eq_zero redBits.1 blueBits.1]
    exact separate.2.2
  · rw [redMask]
    exact fieldMask_lt red
  · rw [greenMask]
    exact fieldMask_lt green
  · rw [blueMask]
    exact fieldMask_lt blue
  · intro wide argb
    exact rgb_fbUnpack_fbPack has separate (by omega) argb
  · intro narrow native within
    exact fbPack_fbUnpack has narrow within

end Layouts

/-- The layout with the chosen positions and the usual widths. -/
def chosenLayout (info : BootInfo) : Layout :=
  let colours := chosenColours info.framebufferBpp info.colours
  let bits := componentBits info.framebufferBpp
  ⟨colours.1, bits.1, colours.2.1, bits.2.1, colours.2.2, bits.2.2⟩

/-- The components at the positions of the boot information do not overlap. -/
def PositionsApart (bpp : Nat) (colours : Nat × Nat × Nat) : Prop :=
  Apart colours.1 (componentBits bpp).1 colours.2.1 (componentBits bpp).2.1 ∧
    Apart colours.2.1 (componentBits bpp).2.1 colours.2.2 (componentBits bpp).2.2 ∧
    Apart colours.1 (componentBits bpp).1 colours.2.2 (componentBits bpp).2.2

instance (bpp : Nat) (colours : Nat × Nat × Nat) : Decidable (PositionsApart bpp colours) :=
  inferInstanceAs (Decidable (_ ∧ _ ∧ _))

theorem componentBits_range (bpp : Nat) :
    (0 < (componentBits bpp).1 ∧ (componentBits bpp).1 ≤ 8) ∧
      (0 < (componentBits bpp).2.1 ∧ (componentBits bpp).2.1 ≤ 8) ∧
      0 < (componentBits bpp).2.2 ∧ (componentBits bpp).2.2 ≤ 8 := by
  rw [componentBits]
  split
  · decide
  · decide

section Chosen

variable {info : BootInfo} (usable : Usable info)

include usable

theorem chosenLayout_fits : (chosenLayout info).Fits info.framebufferBpp := by
  have depth := usable.depth
  rw [chosenLayout, chosenColours]
  split
  next sane =>
    obtain ⟨-, -, -, red, green, blue, -⟩ := sane
    obtain ⟨redBits, greenBits, blueBits⟩ := componentBits_range info.framebufferBpp
    exact ⟨redBits, greenBits, blueBits, red, green, blue, by omega⟩
  next =>
    rcases depth with sixteen | twenty_four | thirty_two
    · rw [sixteen]
      exact ⟨by decide, by decide, by decide, by decide, by decide, by decide, by decide⟩
    · rw [twenty_four]
      exact ⟨by decide, by decide, by decide, by decide, by decide, by decide, by decide⟩
    · rw [thirty_two]
      exact ⟨by decide, by decide, by decide, by decide, by decide, by decide, by decide⟩

theorem framebufferOf_hasLayout : HasLayout (framebufferOf info) (chosenLayout info) := by
  have fits := chosenLayout_fits usable
  exact ⟨fits, rfl, rfl, fits.maskAt, rfl⟩

/-- The usual positions do not overlap. -/
theorem chosenLayout_separate :
    (chosenLayout info).Separate ↔
      ¬Sane info.framebufferBpp info.colours.1 info.colours.2.1 info.colours.2.2 ∨
        PositionsApart info.framebufferBpp info.colours := by
  by_cases sane : Sane info.framebufferBpp info.colours.1 info.colours.2.1 info.colours.2.2
  · rw [Layout.Separate, chosenLayout, chosenColours, if_pos sane]
    simp only [not_true, false_or, sane]
    rfl
  · simp only [sane, not_false_eq_true, true_or, iff_true]
    rw [Layout.Separate, chosenLayout, chosenColours, if_neg sane]
    rcases usable.depth with sixteen | twenty_four | thirty_two
    · rw [sixteen]
      decide
    · rw [twenty_four]
      decide
    · rw [thirty_two]
      decide

end Chosen

/-- Where `fb_init` succeeds, colours are kept if and only if the positions are given up for the
usual ones or are as far apart as the components are wide. -/
theorem fbInit_keepsColours_iff {σ : Type*} {vmmMapPage : σ → Nat → Nat → Bool × σ}
    {info : BootInfo} {fb fb' : Framebuffer} {state state' : σ}
    (succeeds : fbInit vmmMapPage info fb state = (true, fb', state')) :
    KeepsColours fb' ↔
      ¬Sane info.framebufferBpp info.colours.1 info.colours.2.1 info.colours.2.2 ∨
        PositionsApart info.framebufferBpp info.colours := by
  obtain ⟨usable, -, rfl⟩ := fbInit_succeeds succeeds
  exact (framebufferOf_hasLayout usable).keepsColours_iff.trans (chosenLayout_separate usable)

/-- A framebuffer of 32 bits. -/
def displayInfo (red green blue : Nat) : BootInfo :=
  { hasFramebuffer := true
    framebufferAddr := 0xFD000000
    framebufferPitch := 2560
    framebufferWidth := 640
    framebufferHeight := 480
    framebufferBpp := 32
    framebufferType := 1
    framebufferRed := red
    framebufferGreen := green
    framebufferBlue := blue }

/-- What `fb_init` makes of it when every page can be mapped. -/
def displayRun (red green blue : Nat) : Bool × Framebuffer × Unit :=
  fbInit (fun _ _ _ => (true, ())) (displayInfo red green blue) {} ()

theorem displayRun_eq {red green blue : Nat} (succeeds : (displayRun red green blue).1 = true) :
    displayRun red green blue = (true, (displayRun red green blue).2.1, ()) :=
  Prod.ext succeeds (Prod.ext rfl rfl)

theorem usual_colours_kept : KeepsColours (displayRun 16 8 0).2.1 :=
  (fbInit_keepsColours_iff (displayRun_eq (by decide +kernel))).mpr (.inr (by decide))

/-- Positions that differ by one bit are accepted. -/
theorem overlapping_colours_lost :
    ∃ fb, displayRun 16 8 1 = (true, fb, ()) ∧ ¬KeepsColours fb := by
  refine ⟨_, displayRun_eq (by decide +kernel), ?_⟩
  intro keeps
  exact absurd keeps.greenBlue (by decide +kernel)

end Charis.Boot
